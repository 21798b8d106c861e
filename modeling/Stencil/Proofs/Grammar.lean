import Stencil.Proofs.Clean
import Stencil.Template.Fault

/-!
# The grammar of blocks

A sequence of tags and plain text spells a list of nodes: a loop stands between its opening and its
closing tag, a conditional likewise, with at most one middle tag. The tree read off a sequence with a
stack of open blocks is one that the sequence spells.

* `Spells`: the grammar.
* `spells_of_ofTokens`: the tree of a sequence of tokens is spelled by it.
* `spells_pieces`: the tree of a template is spelled by the pieces of the template.
-/

namespace Stencil

open Text Tag

variable {β γ : Type}

/-- **The grammar of blocks.** `view` tells what a member of the sequence is, and `starts` where it
may start as the opening tag of a block. -/
inductive Spells (view : β → Lexeme) (starts : β → Nat → Prop) : List Node → List β → Prop where
  | nil : Spells view starts [] []
  | plain {x : β} {xs : List β} {text : String} {nodes : List Node} :
    view x = .plain text → Spells view starts nodes xs →
    Spells view starts (.plain text :: nodes) (x :: xs)
  | placeholder {x : β} {xs : List β} {path : String} {nodes : List Node} :
    view x = .tag (.placeholder path) → Spells view starts nodes xs →
    Spells view starts (.placeholder path :: nodes) (x :: xs)
  | loop {x y : β} {inner xs : List β} {key : String} {offset : Nat} {body nodes : List Node} :
    view x = .tag (.eachOpen key) → starts x offset → Spells view starts body inner →
    view y = .tag .eachClose → Spells view starts nodes xs →
    Spells view starts (.loop key offset body :: nodes) (x :: (inner ++ y :: xs))
  | single {x y : β} {inner xs : List β} {c : Condition} {offset : Nat} {branch nodes : List Node} :
    view x = .tag (.ifOpen c) → starts x offset → Spells view starts branch inner →
    view y = .tag .ifClose → Spells view starts nodes xs →
    Spells view starts (.conditional c offset branch none :: nodes) (x :: (inner ++ y :: xs))
  | double {x y z : β} {inner inner' xs : List β} {c : Condition} {offset : Nat}
      {whenTrue whenFalse nodes : List Node} :
    view x = .tag (.ifOpen c) → starts x offset → Spells view starts whenTrue inner →
    view y = .tag .otherwise → Spells view starts whenFalse inner' →
    view z = .tag .ifClose → Spells view starts nodes xs →
    Spells view starts (.conditional c offset whenTrue (some whenFalse) :: nodes)
      (x :: (inner ++ y :: (inner' ++ z :: xs)))

variable {view : β → Lexeme} {starts : β → Nat → Prop} {nodes nodes' before done : List Node}
  {xs ys zs : List β} {opened : List (OpenBlock × List Node)}

theorem Spells.append (h : Spells view starts nodes xs) (h' : Spells view starts nodes' ys) :
    Spells view starts (nodes ++ nodes') (xs ++ ys) := by
  induction h with
  | nil => exact h'
  | plain hx _ ih => exact .plain hx ih
  | placeholder hx _ ih => exact .placeholder hx ih
  | loop hx hs hbody hy _ _ ih =>
    simp only [List.cons_append, List.append_assoc]
    exact .loop hx hs hbody hy ih
  | single hx hs hbranch hy _ _ ih =>
    simp only [List.cons_append, List.append_assoc]
    exact .single hx hs hbranch hy ih
  | double hx hs htrue hy hfalse hz _ _ _ ih =>
    simp only [List.cons_append, List.append_assoc]
    exact .double hx hs htrue hy hfalse hz ih

/-- Only what the members of a sequence are decides which nodes it spells. -/
theorem Spells.congr {view' : γ → Lexeme} {us : List γ} (h : Spells view starts nodes xs)
    (he : xs.map view = us.map view') : Spells view' (fun _ _ => True) nodes us := by
  -- the members are cut where those they are compared with are
  induction h generalizing us with
  | nil =>
    obtain rfl : us = [] := List.map_eq_nil_iff.1 he.symm
    exact .nil
  | plain hx _ ih =>
    obtain ⟨u, us, rfl, hu, he⟩ := List.map_eq_cons_iff.1 he.symm
    exact .plain (hu.trans hx) (ih he.symm)
  | placeholder hx _ ih =>
    obtain ⟨u, us, rfl, hu, he⟩ := List.map_eq_cons_iff.1 he.symm
    exact .placeholder (hu.trans hx) (ih he.symm)
  | loop hx _ _ hy _ ihbody ih =>
    obtain ⟨u, us, rfl, hu, he⟩ := List.map_eq_cons_iff.1 he.symm
    rw [List.map_append] at he
    obtain ⟨inner, us, rfl, hinner, he⟩ := List.map_eq_append_iff.1 he
    obtain ⟨v, us, rfl, hv, he⟩ := List.map_eq_cons_iff.1 he
    exact .loop (hu.trans hx) trivial (ihbody hinner.symm) (hv.trans hy) (ih he.symm)
  | single hx _ _ hy _ ihbranch ih =>
    obtain ⟨u, us, rfl, hu, he⟩ := List.map_eq_cons_iff.1 he.symm
    rw [List.map_append] at he
    obtain ⟨inner, us, rfl, hinner, he⟩ := List.map_eq_append_iff.1 he
    obtain ⟨v, us, rfl, hv, he⟩ := List.map_eq_cons_iff.1 he
    exact .single (hu.trans hx) trivial (ihbranch hinner.symm) (hv.trans hy) (ih he.symm)
  | double hx _ _ hy _ hz _ ihtrue ihfalse ih =>
    obtain ⟨u, us, rfl, hu, he⟩ := List.map_eq_cons_iff.1 he.symm
    rw [List.map_append] at he
    obtain ⟨inner, us, rfl, hinner, he⟩ := List.map_eq_append_iff.1 he
    obtain ⟨v, us, rfl, hv, he⟩ := List.map_eq_cons_iff.1 he
    rw [List.map_append] at he
    obtain ⟨inner', us, rfl, hinner', he⟩ := List.map_eq_append_iff.1 he
    obtain ⟨w, us, rfl, hw, he⟩ := List.map_eq_cons_iff.1 he
    exact .double (hu.trans hx) trivial (ihtrue hinner.symm) (hv.trans hy) (ihfalse hinner'.symm)
      (hw.trans hz) (ih he.symm)

/-! ### Reading the tree off the tokens -/

/-- **The stack of open blocks** after the members `xs` of a sequence: each open block stands behind
the nodes before it, and the innermost block has the nodes of `done`, in reverse, so far. -/
inductive Opened (view : β → Lexeme) (starts : β → Nat → Prop) :
    List (OpenBlock × List Node) → List Node → List β → Prop where
  | outermost {done : List Node} {xs : List β} :
    Spells view starts done.reverse xs → Opened view starts [] done xs
  | loop {opened : List (OpenBlock × List Node)} {before done : List Node} {x : β} {xs ys : List β}
      {key : String} {offset : Nat} :
    Opened view starts opened before xs → view x = .tag (.eachOpen key) → starts x offset →
    Spells view starts done.reverse ys →
    Opened view starts ((.loop key offset, before) :: opened) done (xs ++ x :: ys)
  | firstBranch {opened : List (OpenBlock × List Node)} {before done : List Node} {x : β}
      {xs ys : List β} {c : Condition} {offset : Nat} :
    Opened view starts opened before xs → view x = .tag (.ifOpen c) → starts x offset →
    Spells view starts done.reverse ys →
    Opened view starts ((.firstBranch c offset, before) :: opened) done (xs ++ x :: ys)
  | secondBranch {opened : List (OpenBlock × List Node)} {before whenTrue done : List Node} {x y : β}
      {xs ys zs : List β} {c : Condition} {offset : Nat} :
    Opened view starts opened before xs → view x = .tag (.ifOpen c) → starts x offset →
    Spells view starts whenTrue ys → view y = .tag .otherwise → Spells view starts done.reverse zs →
    Opened view starts ((.secondBranch c offset whenTrue, before) :: opened) done
      (xs ++ x :: (ys ++ y :: zs))

/-- A node that is complete goes to the innermost open block. -/
theorem Opened.push {node : Node} (h : Opened view starts opened done xs)
    (hnode : Spells view starts [node] ys) : Opened view starts opened (node :: done) (xs ++ ys) := by
  have hdone : ∀ {done : List Node} {zs : List β}, Spells view starts done.reverse zs →
      Spells view starts (node :: done).reverse (zs ++ ys) := by
    intro done zs hzs
    rw [List.reverse_cons]
    exact hzs.append hnode
  cases h with
  | outermost hxs => exact .outermost (hdone hxs)
  | loop h hx hs hys =>
    rw [List.append_assoc, List.cons_append]
    exact .loop h hx hs (hdone hys)
  | firstBranch h hx hs hys =>
    rw [List.append_assoc, List.cons_append]
    exact .firstBranch h hx hs (hdone hys)
  | secondBranch h hx hs htrue hy hzs =>
    rw [List.append_assoc, List.cons_append, List.append_assoc, List.cons_append]
    exact .secondBranch h hx hs htrue hy (hdone hzs)

/-- The start of a token is the offset of the block it opens. -/
def Token.StartsAt (t : Token) (offset : Nat) : Prop := t.start = offset

/-- What is read with a stack of open blocks is spelled by the tokens that made the stack and those
that are left. -/
theorem spells_of_ofTokensIn {tokens passed : List Token}
    (hopened : Opened Token.lexeme Token.StartsAt opened done passed)
    (h : Node.ofTokensIn opened done tokens = .ok nodes) :
    Spells Token.lexeme Token.StartsAt nodes (passed ++ tokens) := by
  induction tokens generalizing opened done passed with
  | nil =>
    cases hopened with
    | outermost hxs =>
      obtain rfl := Except.ok.inj h
      rw [List.append_nil]
      exact hxs
    | _ => cases h
  | cons token tokens ih =>
    obtain ⟨lexeme, start, stop⟩ := token
    have hlexeme : Token.lexeme ⟨lexeme, start, stop⟩ = lexeme := rfl
    have hmoved : ∀ {ts : List Token}, ts = passed ++ [⟨lexeme, start, stop⟩] →
        Spells Token.lexeme Token.StartsAt nodes (ts ++ tokens) →
        Spells Token.lexeme Token.StartsAt nodes (passed ++ ⟨lexeme, start, stop⟩ :: tokens) := by
      rintro ts rfl hts
      simpa using hts
    -- the token is a node of the innermost block, or it opens, goes on with or closes one
    cases lexeme with
    | plain text => exact hmoved rfl (ih (hopened.push (.plain hlexeme .nil)) h)
    | tag tag =>
      cases tag with
      | placeholder path => exact hmoved rfl (ih (hopened.push (.placeholder hlexeme .nil)) h)
      | eachOpen key => exact hmoved rfl (ih (.loop hopened hlexeme rfl .nil) h)
      | ifOpen c => exact hmoved rfl (ih (.firstBranch hopened hlexeme rfl .nil) h)
      | eachClose =>
        cases hopened with
        | loop hopened hx hs hys =>
          exact hmoved (by simp) (ih (hopened.push (.loop hx hs hys hlexeme .nil)) h)
        | _ => cases h
      | otherwise =>
        cases hopened with
        | firstBranch hopened hx hs hys =>
          exact hmoved (by simp) (ih (.secondBranch hopened hx hs hys hlexeme .nil) h)
        | _ => cases h
      | ifClose =>
        cases hopened with
        | firstBranch hopened hx hs hys =>
          exact hmoved (by simp) (ih (hopened.push (.single hx hs hys hlexeme .nil)) h)
        | secondBranch hopened hx hs htrue hy hzs =>
          exact hmoved (by simp) (ih (hopened.push (.double hx hs htrue hy hzs hlexeme .nil)) h)
        | _ => cases h

/-- **The tree of a sequence of tokens is spelled by it**, each block starting where its opening tag
does. -/
theorem spells_of_ofTokens {tokens : List Token} (h : Node.ofTokens tokens = .ok nodes) :
    Spells Token.lexeme Token.StartsAt nodes tokens := by
  have hopened : Opened Token.lexeme Token.StartsAt [] [] [] := .outermost .nil
  exact spells_of_ofTokensIn hopened h

/-- The nodes that pieces of a text spell, wherever these stand in the text. -/
abbrev Pieces.Spell (ps : Pieces) (nodes : List Node) : Prop :=
  Spells Piece.lexeme (fun _ _ => True) nodes ps

theorem ofSource_eq_ok {template : String} : Node.ofSource template = .ok nodes ↔
    Node.ofTokens (Token.ofSource template) = .ok nodes := by
  unfold Node.ofSource
  cases htokens : Node.ofTokens (Token.ofSource template) with
  | error fault => simp
  | ok nodes' => simp

theorem exists_nodes_of_isOk {template : String} (h : (Node.ofSource template).isOk = true) :
    ∃ nodes, Node.ofSource template = .ok nodes := by
  cases hnodes : Node.ofSource template with
  | ok nodes => exact ⟨nodes, rfl⟩
  | error fault =>
    rw [hnodes] at h
    cases h

theorem spells_pieces {template : String} (h : Node.ofSource template = .ok nodes) :
    Pieces.Spell (recogniser.pieces template.toList) nodes :=
  (spells_of_ofTokens (ofSource_eq_ok.1 h)).congr (map_lexeme_ofSource template)

end Stencil
