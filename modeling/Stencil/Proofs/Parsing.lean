import Stencil.Proofs.Grammar
import Stencil.Proofs.Trees

/-!
# Parsing and flattening

A tree is flattened when its tags and plain texts are written down in their order. Reading a tree off
the tokens of a template undoes that: the template has a tree exactly where its tokens are a tree
flattened, and it has that tree and no other. Which sequences of tokens these are is a grammar of its
own, in which trees do not come up.

* `Node.flattenAll`: trees flattened, with the offsets of their blocks.
* `Balanced`: the grammar of blocks, without trees.
* `ofTokensIn_append`: tokens that spell some nodes are read as these, whatever blocks are open.
* `spells_iff_flattened`: what a sequence of tokens spells is what flattens to it.
* `parsed_iff_flattened`: the tree of a template.
-/

namespace Stencil

variable {nodes : List Node} {tokens : List Token} {t : Token} {lexeme : Lexeme} {offset : Nat}

/-! ### Flattened trees -/

/-- A tag or a plain text of a flattened tree. The opening tag of a block has the offset of the block. -/
structure Mark where
  lexeme : Lexeme
  offset : Option Nat
  deriving DecidableEq

namespace Node

mutual

/-- The tags and plain texts of a node in their order. -/
def flatten : Node → List Mark
  | plain text => [⟨.plain text, none⟩]
  | placeholder path => [⟨.tag (.placeholder path), none⟩]
  | loop key offset body =>
    ⟨.tag (.eachOpen key), some offset⟩ :: (flattenAll body ++ [⟨.tag .eachClose, none⟩])
  | conditional c offset whenTrue whenFalse =>
    ⟨.tag (.ifOpen c), some offset⟩ ::
      (flattenAll whenTrue ++ (flattenBranch whenFalse ++ [⟨.tag .ifClose, none⟩]))

/-- The marks of several nodes. -/
def flattenAll : List Node → List Mark
  | [] => []
  | n :: ns => flatten n ++ flattenAll ns

/-- The marks of a branch that may be absent, with the tag in front of it. -/
def flattenBranch : Option (List Node) → List Mark
  | none => []
  | some ns => ⟨.tag .otherwise, none⟩ :: flattenAll ns

end

end Node

/-- Whether a token opens a block. -/
def Lexeme.opensBlock : Lexeme → Bool
  | .tag (.eachOpen _) => true
  | .tag (.ifOpen _) => true
  | _ => false

/-- The token as it stands in a flattened tree. -/
def Token.mark (t : Token) : Mark := ⟨t.lexeme, if t.lexeme.opensBlock then some t.start else none⟩

namespace Token

/-- A mark with an offset is that of a token which opens a block there. -/
theorem mark_eq_some_iff : t.mark = ⟨lexeme, some offset⟩ ↔
    t.lexeme = lexeme ∧ lexeme.opensBlock = true ∧ t.StartsAt offset := by
  rw [mark, Mark.mk.injEq, StartsAt]
  constructor
  · rintro ⟨rfl, hoffset⟩
    by_cases hopen : t.lexeme.opensBlock = true
    · rw [if_pos hopen] at hoffset
      exact ⟨rfl, hopen, Option.some.inj hoffset⟩
    · rw [if_neg hopen] at hoffset
      cases hoffset
  · rintro ⟨rfl, hopen, rfl⟩
    exact ⟨rfl, if_pos hopen⟩

/-- A mark without an offset is that of a token which opens no block. -/
theorem mark_eq_none_iff : t.mark = ⟨lexeme, none⟩ ↔
    t.lexeme = lexeme ∧ lexeme.opensBlock = false := by
  rw [mark, Mark.mk.injEq]
  constructor
  · rintro ⟨rfl, hoffset⟩
    by_cases hopen : t.lexeme.opensBlock = true
    · rw [if_pos hopen] at hoffset
      cases hoffset
    · exact ⟨rfl, Bool.eq_false_iff.2 hopen⟩
  · rintro ⟨rfl, hopen⟩
    exact ⟨rfl, if_neg (Bool.eq_false_iff.1 hopen)⟩

end Token

/-! ### Parsing -/

/-- **Tokens that spell some nodes are read as these**, whatever blocks are open in front of them and
whatever stands behind. -/
theorem ofTokensIn_append (h : Spells Token.lexeme Token.StartsAt nodes tokens)
    (opened : List (OpenBlock × List Node)) (done : List Node) (rest : List Token) :
    Node.ofTokensIn opened done (tokens ++ rest) =
      Node.ofTokensIn opened (nodes.reverse ++ done) rest := by
  -- the open blocks are general, as a body is read with its own block on top of them
  induction h generalizing opened done rest with
  | nil => rfl
  | @plain t ts text ns ht _ ih =>
    cases t
    cases ht
    rw [List.cons_append, Node.ofTokensIn, ih, List.reverse_cons, List.append_assoc]
    rfl
  | @placeholder t ts path ns ht _ ih =>
    cases t
    cases ht
    rw [List.cons_append, Node.ofTokensIn, ih, List.reverse_cons, List.append_assoc]
    rfl
  | @loop t u inner ts key offset body ns ht hs _ hu _ ihbody ih =>
    cases t
    cases u
    cases ht
    cases hu
    cases hs
    rw [List.cons_append, Node.ofTokensIn, List.append_assoc, ihbody, List.cons_append,
      Node.ofTokensIn, ih]
    simp
  | @single t u inner ts c offset branch ns ht hs _ hu _ ihbranch ih =>
    cases t
    cases u
    cases ht
    cases hu
    cases hs
    rw [List.cons_append, Node.ofTokensIn, List.append_assoc, ihbranch, List.cons_append,
      Node.ofTokensIn, ih]
    simp
  | @double t u v inner inner' ts c offset whenTrue whenFalse ns ht hs _ hu _ hv _ ihtrue ihfalse ih =>
    cases t
    cases u
    cases v
    cases ht
    cases hu
    cases hv
    cases hs
    rw [List.cons_append, Node.ofTokensIn, List.append_assoc, ihtrue, List.cons_append,
      Node.ofTokensIn, List.append_assoc, ihfalse, List.cons_append, Node.ofTokensIn, ih]
    simp

/-- **Parsing is right**: the nodes are those that the tokens spell. -/
theorem ofTokens_eq_ok_iff : Node.ofTokens tokens = .ok nodes ↔
    Spells Token.lexeme Token.StartsAt nodes tokens := by
  refine ⟨spells_of_ofTokens, fun h => ?_⟩
  have hread := ofTokensIn_append h [] [] []
  rw [List.append_nil, List.append_nil] at hread
  rw [Node.ofTokens, hread, Node.ofTokensIn, List.reverse_reverse]

/-! ### What tokens spell is what flattens to them -/

/-- Tokens that spell nodes have the marks of these. -/
theorem Spells.map_mark (h : Spells Token.lexeme Token.StartsAt nodes tokens) :
    tokens.map Token.mark = Node.flattenAll nodes := by
  have hopens : ∀ {t : Token} {lexeme : Lexeme} {offset : Nat}, t.lexeme = lexeme →
      lexeme.opensBlock = true → t.StartsAt offset → t.mark = ⟨lexeme, some offset⟩ :=
    fun ht hopen hs => Token.mark_eq_some_iff.2 ⟨ht, hopen, hs⟩
  have hother : ∀ {t : Token} {lexeme : Lexeme}, t.lexeme = lexeme → lexeme.opensBlock = false →
      t.mark = ⟨lexeme, none⟩ := fun ht hopen => Token.mark_eq_none_iff.2 ⟨ht, hopen⟩
  induction h with
  | nil => rfl
  | plain ht _ ih =>
    rw [List.map_cons, hother ht rfl, ih]
    rfl
  | placeholder ht _ ih =>
    rw [List.map_cons, hother ht rfl, ih]
    rfl
  | loop ht hs _ hu _ ihbody ih =>
    rw [List.map_cons, List.map_append, List.map_cons, hopens ht rfl hs, hother hu rfl, ihbody, ih,
      Node.flattenAll, Node.flatten]
    simp
  | single ht hs _ hu _ ihbranch ih =>
    rw [List.map_cons, List.map_append, List.map_cons, hopens ht rfl hs, hother hu rfl, ihbranch, ih,
      Node.flattenAll, Node.flatten, Node.flattenBranch]
    simp
  | double ht hs _ hu _ hv _ ihtrue ihfalse ih =>
    rw [List.map_cons, List.map_append, List.map_cons, List.map_append, List.map_cons,
      hopens ht rfl hs, hother hu rfl, hother hv rfl, ihtrue, ihfalse, ih, Node.flattenAll,
      Node.flatten, Node.flattenBranch]
    simp

/-- Tokens with the marks of nodes spell them. -/
theorem spells_of_map_mark (h : tokens.map Token.mark = Node.flattenAll nodes) :
    Spells Token.lexeme Token.StartsAt nodes tokens := by
  -- the marks of each node say where the tokens are to be cut
  induction nodes using Node.forest_induction generalizing tokens with
  | nil =>
    obtain rfl : tokens = [] := List.map_eq_nil_iff.1 h
    exact .nil
  | plain text ns ih =>
    obtain ⟨t, ts, rfl, ht, hts⟩ := List.map_eq_cons_iff.1 h
    exact .plain (Token.mark_eq_none_iff.1 ht).1 (ih hts)
  | placeholder path ns ih =>
    obtain ⟨t, ts, rfl, ht, hts⟩ := List.map_eq_cons_iff.1 h
    exact .placeholder (Token.mark_eq_none_iff.1 ht).1 (ih hts)
  | loop key offset body ns ihbody ih =>
    rw [Node.flattenAll, Node.flatten, List.cons_append, List.append_assoc] at h
    obtain ⟨t, ts, rfl, ht, hts⟩ := List.map_eq_cons_iff.1 h
    obtain ⟨inner, ts, rfl, hinner, hts⟩ := List.map_eq_append_iff.1 hts
    obtain ⟨u, ts, rfl, hu, hts⟩ := List.map_eq_cons_iff.1 hts
    obtain ⟨ht, -, hs⟩ := Token.mark_eq_some_iff.1 ht
    exact .loop ht hs (ihbody hinner) (Token.mark_eq_none_iff.1 hu).1 (ih hts)
  | single c offset branch ns ihbranch ih =>
    rw [Node.flattenAll, Node.flatten, Node.flattenBranch, List.nil_append, List.cons_append,
      List.append_assoc] at h
    obtain ⟨t, ts, rfl, ht, hts⟩ := List.map_eq_cons_iff.1 h
    obtain ⟨inner, ts, rfl, hinner, hts⟩ := List.map_eq_append_iff.1 hts
    obtain ⟨u, ts, rfl, hu, hts⟩ := List.map_eq_cons_iff.1 hts
    obtain ⟨ht, -, hs⟩ := Token.mark_eq_some_iff.1 ht
    exact .single ht hs (ihbranch hinner) (Token.mark_eq_none_iff.1 hu).1 (ih hts)
  | double c offset whenTrue whenFalse ns ihtrue ihfalse ih =>
    rw [Node.flattenAll, Node.flatten, Node.flattenBranch, List.cons_append, List.cons_append,
      List.append_assoc, List.cons_append, List.append_assoc] at h
    obtain ⟨t, ts, rfl, ht, hts⟩ := List.map_eq_cons_iff.1 h
    obtain ⟨inner, ts, rfl, hinner, hts⟩ := List.map_eq_append_iff.1 hts
    obtain ⟨u, ts, rfl, hu, hts⟩ := List.map_eq_cons_iff.1 hts
    obtain ⟨inner', ts, rfl, hinner', hts⟩ := List.map_eq_append_iff.1 hts
    obtain ⟨v, ts, rfl, hv, hts⟩ := List.map_eq_cons_iff.1 hts
    obtain ⟨ht, -, hs⟩ := Token.mark_eq_some_iff.1 ht
    exact .double ht hs (ihtrue hinner) (Token.mark_eq_none_iff.1 hu).1 (ihfalse hinner')
      (Token.mark_eq_none_iff.1 hv).1 (ih hts)

/-- **What a sequence of tokens spells** is what flattens to it. -/
theorem spells_iff_flattened : Spells Token.lexeme Token.StartsAt nodes tokens ↔
    tokens.map Token.mark = Node.flattenAll nodes :=
  ⟨Spells.map_mark, spells_of_map_mark⟩

/-! ### The grammar without trees -/

/-- **Balanced tags**: plain texts and placeholders, loops between an opening and a closing tag, and
conditionals likewise, with at most one middle tag. -/
inductive Balanced : List Lexeme → Prop where
  | nil : Balanced []
  | plain {text : String} {ls : List Lexeme} : Balanced ls → Balanced (.plain text :: ls)
  | placeholder {path : String} {ls : List Lexeme} :
    Balanced ls → Balanced (.tag (.placeholder path) :: ls)
  | loop {key : String} {inner ls : List Lexeme} : Balanced inner → Balanced ls →
    Balanced (.tag (.eachOpen key) :: (inner ++ .tag .eachClose :: ls))
  | single {c : Condition} {inner ls : List Lexeme} : Balanced inner → Balanced ls →
    Balanced (.tag (.ifOpen c) :: (inner ++ .tag .ifClose :: ls))
  | double {c : Condition} {inner inner' ls : List Lexeme} : Balanced inner → Balanced inner' →
    Balanced ls →
    Balanced (.tag (.ifOpen c) :: (inner ++ .tag .otherwise :: (inner' ++ .tag .ifClose :: ls)))

/-- What spells nodes is balanced. -/
theorem Spells.balanced {β : Type} {view : β → Lexeme} {starts : β → Nat → Prop} {xs : List β}
    (h : Spells view starts nodes xs) : Balanced (xs.map view) := by
  induction h with
  | nil => exact .nil
  | plain hx _ ih =>
    rw [List.map_cons, hx]
    exact .plain ih
  | placeholder hx _ ih =>
    rw [List.map_cons, hx]
    exact .placeholder ih
  | loop hx _ _ hy _ ihbody ih =>
    rw [List.map_cons, List.map_append, List.map_cons, hx, hy]
    exact .loop ihbody ih
  | single hx _ _ hy _ ihbranch ih =>
    rw [List.map_cons, List.map_append, List.map_cons, hx, hy]
    exact .single ihbranch ih
  | double hx _ _ hy _ hz _ ihtrue ihfalse ih =>
    rw [List.map_cons, List.map_append, List.map_cons, List.map_append, List.map_cons, hx, hy, hz]
    exact .double ihtrue ihfalse ih

/-- Balanced tokens spell some nodes. -/
theorem Balanced.exists_spells (h : Balanced (tokens.map Token.lexeme)) :
    ∃ nodes, Spells Token.lexeme Token.StartsAt nodes tokens := by
  generalize hls : tokens.map Token.lexeme = ls at h
  -- what is balanced is so for a reason, and there is one for each kind of node
  induction h generalizing tokens with
  | nil =>
    obtain rfl : tokens = [] := List.map_eq_nil_iff.1 hls
    exact ⟨[], .nil⟩
  | plain _ ih =>
    obtain ⟨t, ts, rfl, ht, hts⟩ := List.map_eq_cons_iff.1 hls
    obtain ⟨ns, hns⟩ := ih hts
    exact ⟨_, .plain ht hns⟩
  | placeholder _ ih =>
    obtain ⟨t, ts, rfl, ht, hts⟩ := List.map_eq_cons_iff.1 hls
    obtain ⟨ns, hns⟩ := ih hts
    exact ⟨_, .placeholder ht hns⟩
  | loop _ _ ihbody ih =>
    obtain ⟨t, ts, rfl, ht, hts⟩ := List.map_eq_cons_iff.1 hls
    obtain ⟨inner, ts, rfl, hinner, hts⟩ := List.map_eq_append_iff.1 hts
    obtain ⟨u, ts, rfl, hu, hts⟩ := List.map_eq_cons_iff.1 hts
    obtain ⟨body, hbody⟩ := ihbody hinner
    obtain ⟨ns, hns⟩ := ih hts
    exact ⟨_, .loop ht rfl hbody hu hns⟩
  | single _ _ ihbranch ih =>
    obtain ⟨t, ts, rfl, ht, hts⟩ := List.map_eq_cons_iff.1 hls
    obtain ⟨inner, ts, rfl, hinner, hts⟩ := List.map_eq_append_iff.1 hts
    obtain ⟨u, ts, rfl, hu, hts⟩ := List.map_eq_cons_iff.1 hts
    obtain ⟨branch, hbranch⟩ := ihbranch hinner
    obtain ⟨ns, hns⟩ := ih hts
    exact ⟨_, .single ht rfl hbranch hu hns⟩
  | double _ _ _ ihtrue ihfalse ih =>
    obtain ⟨t, ts, rfl, ht, hts⟩ := List.map_eq_cons_iff.1 hls
    obtain ⟨inner, ts, rfl, hinner, hts⟩ := List.map_eq_append_iff.1 hts
    obtain ⟨u, ts, rfl, hu, hts⟩ := List.map_eq_cons_iff.1 hts
    obtain ⟨inner', ts, rfl, hinner', hts⟩ := List.map_eq_append_iff.1 hts
    obtain ⟨v, ts, rfl, hv, hts⟩ := List.map_eq_cons_iff.1 hts
    obtain ⟨whenTrue, htrue⟩ := ihtrue hinner
    obtain ⟨whenFalse, hfalse⟩ := ihfalse hinner'
    obtain ⟨ns, hns⟩ := ih hts
    exact ⟨_, .double ht rfl htrue hu hfalse hv hns⟩

/-- Balanced tokens are parsed, and no others are. -/
theorem balanced_iff_exists_nodes :
    Balanced (tokens.map Token.lexeme) ↔ ∃ nodes, Node.ofTokens tokens = .ok nodes := by
  constructor
  · intro h
    obtain ⟨nodes, hnodes⟩ := h.exists_spells
    exact ⟨nodes, ofTokens_eq_ok_iff.2 hnodes⟩
  · rintro ⟨nodes, hnodes⟩
    exact (spells_of_ofTokens hnodes).balanced

/-! ### The tree of a template -/

/-- A token that stands as the mark in a flattened tree. -/
def Mark.token (m : Mark) : Token := ⟨m.lexeme, m.offset.getD 0, 0⟩

/-- Marks of a flattened tree have an offset exactly where they open a block. -/
theorem mark_token_of_mem {m : Mark} (h : m ∈ Node.flattenAll nodes) : m.token.mark = m := by
  have hclose : ∀ {lexeme : Lexeme}, lexeme.opensBlock = false → m = ⟨lexeme, none⟩ →
      m.token.mark = m := by
    rintro lexeme hopen rfl
    exact Token.mark_eq_none_iff.2 ⟨rfl, hopen⟩
  have hopen : ∀ {lexeme : Lexeme} {offset : Nat}, lexeme.opensBlock = true →
      m = ⟨lexeme, some offset⟩ → m.token.mark = m := by
    rintro lexeme offset hopen rfl
    exact Token.mark_eq_some_iff.2 ⟨rfl, hopen, rfl⟩
  -- a mark opens a block, closes one or halves one, or is in one of the bodies
  induction nodes using Node.forest_induction with
  | nil => cases h
  | plain text ns ih => exact (List.mem_cons.1 h).elim (hclose rfl) ih
  | placeholder path ns ih => exact (List.mem_cons.1 h).elim (hclose rfl) ih
  | loop key offset body ns ihbody ih =>
    simp only [Node.flattenAll, Node.flatten, List.mem_append, List.mem_cons, List.not_mem_nil,
      or_false] at h
    rcases h with (h | h | h) | h
    · exact hopen rfl h
    · exact ihbody h
    · exact hclose rfl h
    · exact ih h
  | single c offset branch ns ihbranch ih =>
    simp only [Node.flattenAll, Node.flatten, Node.flattenBranch, List.mem_append, List.mem_cons,
      List.not_mem_nil, or_false, false_or] at h
    rcases h with (h | h | h) | h
    · exact hopen rfl h
    · exact ihbranch h
    · exact hclose rfl h
    · exact ih h
  | double c offset whenTrue whenFalse ns ihtrue ihfalse ih =>
    simp only [Node.flattenAll, Node.flatten, Node.flattenBranch, List.mem_append, List.mem_cons,
      List.not_mem_nil, or_false] at h
    rcases h with (h | h | (h | h) | h) | h
    · exact hopen rfl h
    · exact ihtrue h
    · exact hclose rfl h
    · exact ihfalse h
    · exact hclose rfl h
    · exact ih h

/-- **Trees are told apart by what they flatten to.** -/
theorem flattenAll_injective : Function.Injective Node.flattenAll := by
  intro nodes nodes' he
  -- both are the tree of the tokens that stand as the marks
  have hmarks : ((Node.flattenAll nodes).map Mark.token).map Token.mark = Node.flattenAll nodes := by
    rw [List.map_map]
    exact (List.map_congr_left fun m hm => mark_token_of_mem hm).trans (List.map_id _)
  have hparse := ofTokens_eq_ok_iff.2 (spells_of_map_mark hmarks)
  have hparse' := ofTokens_eq_ok_iff.2 (spells_of_map_mark (hmarks.trans he))
  rw [hparse] at hparse'
  exact Except.ok.inj hparse'

/-- **A template has a tree** exactly where its tags are balanced, and its tree is the one that flattens
to its tokens, each block with the position of its opening tag. -/
theorem parsed_iff_flattened :
    (∀ source nodes, Node.ofSource source = .ok nodes ↔
      (Token.ofSource source).map Token.mark = Node.flattenAll nodes) ∧
    (∀ source, (∃ nodes, Node.ofSource source = .ok nodes) ↔
      Balanced ((Token.ofSource source).map Token.lexeme)) ∧
    Function.Injective Node.flattenAll := by
  refine ⟨fun source nodes => ?_, fun source => ?_, flattenAll_injective⟩
  · rw [ofSource_eq_ok, ofTokens_eq_ok_iff, spells_iff_flattened]
  · rw [balanced_iff_exists_nodes]
    exact exists_congr fun nodes => ofSource_eq_ok

/-- A conditional in a loop, of which the second branch has a placeholder. -/
example : (Token.ofSource ("\x7b\x7b#each a\x7d\x7d\x7b\x7b#if f\x7d\x7dx\x7b\x7b#else\x7d\x7d" ++
      "\x7b\x7ba.y\x7d\x7d\x7b\x7b/if\x7d\x7d\x7b\x7b/each\x7d\x7d")).map Token.mark =
    Node.flattenAll [.loop "a" 0
      [.conditional ⟨"f", none⟩ 11 [.plain "x"] (some [.placeholder "a.y"])]] := by
  decide +kernel

end Stencil
