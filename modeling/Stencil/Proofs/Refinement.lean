import Stencil.Proofs.Grammar
import Stencil.Proofs.Trees

/-!
# Rendering text renders trees

The passes over the text of a template and the steps on its tree stay side by side: as long as the
pieces of a text spell a tree, the pieces after a pass spell the tree after the step.

* `spell_fillAll`, `spell_loops`, `spell_conditionals`, `clear_of_spell`: one pass and one step.
* `fits_of_spell`: which tags stand in a tree whose blocks are apart.
* `render_eq_rendered`: a clean template is rendered as its tree is.
-/

namespace Option.Rel

theorem map {α β γ δ : Type} {r : α → β → Prop} {r' : γ → δ → Prop} {f : α → γ}
    {g : β → δ} {x : Option α} {y : Option β} (h : Rel r x y)
    (hfg : ∀ {a b}, r a b → r' (f a) (g b)) : Rel r' (x.map f) (y.map g) := by
  cases h with
  | some h => exact .some (hfg h)
  | none => exact .none

theorem or {α β : Type} {r : α → β → Prop} {x x' : Option α} {y y' : Option β}
    (h : Rel r x y) (h' : Rel r x' y') : Rel r (x.or x') (y.or y') := by
  cases h with
  | some h => exact .some h
  | none => exact h'

end Option.Rel

namespace Stencil

open Text Tag Pieces Node

variable {ps inner : Pieces} {nodes nodes' body : List Node} {p q : Piece Tag} {tag : Tag}
  {path text key : String} {row : Option String} {value : Value} {data : Mapping}
  {bound : String → Prop} {inLoop inConditional : Bool}

/-! ### Pieces and what they are -/

theorem tag?_of_lexeme_plain (h : p.lexeme = .plain text) : p.tag? = none := by
  cases p with
  | plain text => rfl
  | found tag lexeme => cases h

theorem eq_plain_of_lexeme (h : p.lexeme = .plain text) : p = .plain text.toList := by
  cases p with
  | plain text => rw [← Lexeme.plain.inj h, String.toList_ofList]
  | found tag lexeme => cases h

theorem tag?_ne_of_lexeme {tag' : Tag} (h : p.lexeme = .tag tag) (hne : tag ≠ tag') :
    p.tag? ≠ some tag' := by
  rw [tag?_of_lexeme h]
  exact fun he => hne (Option.some.inj he)

theorem opened?_of_lexeme {α : Type} (k : BlockKind α) (h : p.lexeme = .tag tag) :
    k.opened? p = k.opening? tag := by
  rw [BlockKind.opened?, tag?_of_lexeme h]
  rfl

theorem opened?_of_lexeme_plain {α : Type} (k : BlockKind α) (h : p.lexeme = .plain text) :
    k.opened? p = none := by
  rw [BlockKind.opened?, tag?_of_lexeme_plain h]
  rfl

/-! ### Filling -/

/-- The first placeholder of a path in the pieces is the first one in the tree. -/
theorem spell_put? (h : Spell ps nodes) (path text : String) :
    Option.Rel Spell (Pieces.put? path text.toList ps) (putAll? path text nodes) := by
  induction h with
  | nil => exact .none
  | plain hx _ ih =>
    rw [put?_cons_of_ne (by simp [tag?_of_lexeme_plain hx]), putAll?, Node.put?]
    exact ih.map fun h => .plain hx h
  | @placeholder x xs path' nodes hx h ih =>
    rw [putAll?, Node.put?]
    by_cases hpath : path' = path
    · subst hpath
      rw [put?_cons_of_eq (tag?_of_lexeme hx), if_pos rfl]
      exact .some (.plain (by rw [Piece.lexeme, String.ofList_toList]) h)
    · rw [put?_cons_of_ne (tag?_ne_of_lexeme hx fun he => hpath (Tag.placeholder.inj he)),
        if_neg hpath]
      exact ih.map fun h => .placeholder hx h
  | loop hx hs hbody hy h ihbody ih =>
    -- the first placeholder is in the body, or else behind the loop
    rw [put?_cons_of_ne (tag?_ne_of_lexeme hx (by simp)), put?_append,
      put?_cons_of_ne (tag?_ne_of_lexeme hy (by simp)), putAll?, Node.put?]
    simp only [Option.map_or, Option.map_map]
    exact (ihbody.map fun hbody => .loop hx hs hbody hy h).or
      (ih.map fun h => .loop hx hs hbody hy h)
  | single hx hs hbranch hy h ihbranch ih =>
    rw [put?_cons_of_ne (tag?_ne_of_lexeme hx (by simp)), put?_append,
      put?_cons_of_ne (tag?_ne_of_lexeme hy (by simp)), putAll?, Node.put?, putBranch?]
    simp only [Option.map_or, Option.map_map, Option.map_none, Option.or_none]
    exact (ihbranch.map fun hbranch => .single hx hs hbranch hy h).or
      (ih.map fun h => .single hx hs hbranch hy h)
  | double hx hs htrue hy hfalse hz h ihtrue ihfalse ih =>
    rw [put?_cons_of_ne (tag?_ne_of_lexeme hx (by simp)), put?_append,
      put?_cons_of_ne (tag?_ne_of_lexeme hy (by simp)), put?_append,
      put?_cons_of_ne (tag?_ne_of_lexeme hz (by simp)), putAll?, Node.put?, putBranch?]
    simp only [Option.map_or, Option.map_map, Option.or_assoc]
    exact (ihtrue.map fun htrue => .double hx hs htrue hy hfalse hz h).or
      ((ihfalse.map fun hfalse => .double hx hs htrue hy hfalse hz h).or
        (ih.map fun h => .double hx hs htrue hy hfalse hz h))

theorem spell_put (h : Spell ps nodes) (path text : String) :
    Spell (Pieces.put path text.toList ps) ((putAll? path text nodes).getD nodes) := by
  have hput := spell_put? h path text
  unfold Pieces.put
  generalize Pieces.put? path text.toList ps = made at hput ⊢
  generalize putAll? path text nodes = made' at hput ⊢
  cases hput with
  | some hput => exact hput
  | none => exact h

/-- Filling one key goes along with spelling. -/
theorem spell_fillOne (h : Spell ps nodes) :
    Spell (Pieces.fillOne row ps key value) (Node.fillOne row nodes key value) := by
  unfold Pieces.fillOne Node.fillOne
  by_cases hscalar : value.isScalar = true
  · rw [if_pos hscalar, if_pos hscalar]
    exact spell_put h _ _
  · rw [if_neg hscalar, if_neg hscalar]
    exact h

/-- Filling from a record goes along with spelling, by induction on its entries. -/
theorem spell_fill {record : Mapping} (h : Spell ps nodes) :
    Spell (Pieces.fill row ps record) (Node.fill row nodes record) := by
  induction record generalizing ps nodes with
  | nil => exact h
  | cons entry record ih => exact ih (spell_fillOne h)

/-- Filling from a context goes along with spelling. -/
theorem spell_fillAll (h : Spell ps nodes) (context : Context) :
    Spell (Pieces.fillAll ps context) (Node.fillAll nodes context) := by
  unfold Pieces.fillAll Node.fillAll
  generalize context.entries.reverse = entries
  induction entries generalizing ps nodes with
  | nil => exact h
  | cons m entries ih => exact ih (spell_fill h)

/-! ### Which tags stand in a tree -/

/-- The blocks of pieces that spell a tree do not reach out of them. -/
theorem contained_loop (h : Spell ps nodes) : Contained .loop ps := by
  induction h with
  | nil => trivial
  | plain hx _ ih => exact ⟨fun hp => absurd (opened?_of_lexeme_plain _ hx) hp, ih⟩
  | placeholder hx _ ih => exact ⟨fun hp => absurd (opened?_of_lexeme _ hx) hp, ih⟩
  | loop hx _ _ hy _ ihbody ih =>
    have hclose := tag?_of_lexeme hy
    refine ⟨fun _ => ⟨_, List.mem_append_right _ List.mem_cons_self, hclose⟩, ihbody.append ⟨?_, ih⟩⟩
    exact fun hp => absurd (opened?_of_lexeme _ hy) hp
  | single hx _ _ hy _ ihbranch ih =>
    refine ⟨fun hp => absurd (opened?_of_lexeme _ hx) hp, ihbranch.append ⟨?_, ih⟩⟩
    exact fun hp => absurd (opened?_of_lexeme _ hy) hp
  | double hx _ _ hy _ hz _ ihtrue ihfalse ih =>
    refine ⟨fun hp => absurd (opened?_of_lexeme _ hx) hp, ihtrue.append ⟨?_, ihfalse.append ⟨?_, ih⟩⟩⟩
    · exact fun hp => absurd (opened?_of_lexeme _ hy) hp
    · exact fun hp => absurd (opened?_of_lexeme _ hz) hp

/-- The tag may stand in a block of the kinds that the flags tell of, where no block is in another
one of its kind. -/
def Tag.fits (inLoop inConditional : Bool) : Tag → Bool
  | .placeholder _ => true
  | .eachOpen _ => !inLoop
  | .eachClose => !inLoop
  | .ifOpen _ => !inConditional
  | .otherwise => !inConditional
  | .ifClose => !inConditional

/-- A piece may stand where it does, in view of the blocks around it. -/
def Fits (inLoop inConditional : Bool) (p : Piece Tag) : Prop :=
  ∀ tag, p.tag? = some tag → tag.fits inLoop inConditional = true

theorem fits_of_lexeme (h : p.lexeme = .tag tag) (hfits : tag.fits inLoop inConditional = true) :
    Fits inLoop inConditional p := by
  intro tag' htag
  rw [tag?_of_lexeme h] at htag
  rw [← Option.some.inj htag]
  exact hfits

theorem fits_of_lexeme_plain (h : p.lexeme = .plain text) : Fits inLoop inConditional p := by
  intro tag htag
  rw [tag?_of_lexeme_plain h] at htag
  cases htag

/-- What may stand in a block may stand outside of it. -/
theorem Fits.outside (h : Fits inLoop inConditional p) :
    Fits false inConditional p ∧ Fits inLoop false p := by
  constructor
  · intro tag htag
    have hfits := h tag htag
    cases tag <;> simp_all [Tag.fits]
  · intro tag htag
    have hfits := h tag htag
    cases tag <;> simp_all [Tag.fits]

/-- A piece that fits is no tag that does not. -/
theorem Fits.ne (h : Fits inLoop inConditional p) (hfits : tag.fits inLoop inConditional = false) :
    p.tag? ≠ some tag := by
  intro htag
  rw [h tag htag] at hfits
  cases hfits

/-- The tags of a resolvable tree fit where the tree stands: with a loop around no loop ends, and with
a conditional around no conditional ends and none goes on to its second branch. -/
theorem fits_of_spell (h : Spell ps nodes) (hnodes : Resolvable bound inLoop inConditional nodes) :
    ∀ q ∈ ps, Fits inLoop inConditional q := by
  -- that `hnodes` allows a block means that there is none of its kind around
  induction h generalizing inLoop inConditional with
  | nil => exact nofun
  | plain hx _ ih =>
    cases hnodes with
    | plain hnodes => exact List.forall_mem_cons.2 ⟨fits_of_lexeme_plain hx, ih hnodes⟩
  | placeholder hx _ ih =>
    cases hnodes with
    | placeholder hnodes => exact List.forall_mem_cons.2 ⟨fits_of_lexeme hx rfl, ih hnodes⟩
  | loop hx _ _ hy _ ihbody ih =>
    cases hnodes with
    | loop _ hbody hnodes =>
      rw [List.forall_mem_cons, List.forall_mem_append, List.forall_mem_cons]
      refine ⟨fits_of_lexeme hx rfl, ?_, fits_of_lexeme hy rfl, ih hnodes⟩
      exact fun q hq => (ihbody hbody q hq).outside.1
  | single hx _ _ hy _ ihbranch ih =>
    cases hnodes with
    | single hbranch hnodes =>
      rw [List.forall_mem_cons, List.forall_mem_append, List.forall_mem_cons]
      refine ⟨fits_of_lexeme hx rfl, ?_, fits_of_lexeme hy rfl, ih hnodes⟩
      exact fun q hq => (ihbranch hbranch q hq).outside.2
  | double hx _ _ hy _ hz _ ihtrue ihfalse ih =>
    cases hnodes with
    | double htrue hfalse hnodes =>
      rw [List.forall_mem_cons, List.forall_mem_append, List.forall_mem_cons,
        List.forall_mem_append, List.forall_mem_cons]
      refine ⟨fits_of_lexeme hx rfl, ?_, fits_of_lexeme hy rfl, ?_, fits_of_lexeme hz rfl, ih hnodes⟩
      · exact fun q hq => (ihtrue htrue q hq).outside.2
      · exact fun q hq => (ihfalse hfalse q hq).outside.2

/-! ### Loops -/

/-- The pieces of a row spell the nodes of it. -/
theorem spell_expandRow (h : Spell ps nodes) :
    Spell (Pieces.expandRow key ps value) (Node.expandRow key nodes value) := by
  cases value with
  | mapping fields => exact spell_fill h
  | _ => exact spell_fillOne h

/-- The pieces of all rows spell the nodes of them. -/
theorem spell_flatMap {values : List Value} (h : Spell ps nodes) :
    Spell (values.flatMap (Pieces.expandRow key ps)) (values.flatMap (Node.expandRow key nodes)) := by
  induction values with
  | nil => exact .nil
  | cons v values ih => exact (spell_expandRow h).append ih

/-- A loop over a key that is bound is replaced by its rows, and every other one is dropped where
that is the policy. -/
theorem spell_loops (data : Mapping) {missing : MissingBlocks} (h : Spell ps nodes)
    (hnodes : Resolvable (fun key => missing = .remove ∨ (data.get? key).isSome) inLoop inConditional
      nodes) :
    Spell (Pieces.loops data missing ps) (expandLoopsAll data nodes) := by
  unfold Pieces.loops
  induction h generalizing inLoop inConditional with
  | nil => rw [expand_nil]; exact .nil
  | plain hx _ ih =>
    cases hnodes with
    | plain hnodes =>
      rw [expand_cons (opened?_of_lexeme_plain _ hx)]
      exact .plain hx (ih hnodes)
  | placeholder hx _ ih =>
    cases hnodes with
    | placeholder hnodes =>
      rw [expand_cons (opened?_of_lexeme _ hx)]
      exact .placeholder hx (ih hnodes)
  | @loop x y inner xs key offset body nodes hx _ hbody hy _ _ ih =>
    cases hnodes with
    | loop hkey hinner hnodes =>
      -- no loop ends in the body, so that the search stops behind it
      have hfits := fits_of_spell hbody hinner
      rw [expand_block (opened?_of_lexeme _ hx) (fun q hq => (hfits q hq).ne rfl) (tag?_of_lexeme hy),
        expandLoopsAll, expandLoops]
      refine Spells.append ?_ (ih hnodes)
      unfold rows? Node.rows
      cases hget : data.get? key with
      | some value => exact spell_flatMap hbody
      | none =>
        rw [hget] at hkey
        obtain rfl := hkey.resolve_right nofun
        exact .nil
  | single hx _ hbranch hy _ ihbranch ih =>
    cases hnodes with
    | single hinner hnodes =>
      rw [expand_cons (opened?_of_lexeme _ hx), expand_append (contained_loop hbranch),
        expand_cons (opened?_of_lexeme _ hy)]
      exact .single hx trivial (ihbranch hinner) hy (ih hnodes)
  | double hx _ htrue hy hfalse hz _ ihtrue ihfalse ih =>
    cases hnodes with
    | double hinner hinner' hnodes =>
      rw [expand_cons (opened?_of_lexeme _ hx), expand_append (contained_loop htrue),
        expand_cons (opened?_of_lexeme _ hy), expand_append (contained_loop hfalse),
        expand_cons (opened?_of_lexeme _ hz)]
      exact .double hx trivial (ihtrue hinner) hy (ihfalse hinner') hz (ih hnodes)

/-! ### Conditionals -/

/-- The branch of a conditional is cut off at the middle tag. -/
theorem branch_append {holds : Bool} {a b : Pieces} (ha : ∀ q ∈ a, q.tag? ≠ some .otherwise)
    (hp : p.tag? = some .otherwise) : branch holds (a ++ p :: b) = if holds then a else b := by
  rw [branch, cutAt?_append ha hp]

/-- Without a tag between branches there is only the first one. -/
theorem branch_of_forall {holds : Bool} (h : ∀ q ∈ ps, q.tag? ≠ some .otherwise) :
    branch holds ps = if holds then ps else [] := by
  rw [branch, cutAt?_eq_none.2 h]

/-- **Resolving goes along with spelling**: the pass over the pieces does what the tree does. -/
theorem spell_conditionals (data : Mapping) (h : Spell ps nodes)
    (hnodes : Resolvable bound true false nodes) :
    Spell (Pieces.conditionals data ps) (nodes.flatMap (Node.resolve data)) := by
  unfold Pieces.conditionals
  induction h with
  | nil => rw [expand_nil]; exact .nil
  | plain hx _ ih =>
    cases hnodes with
    | plain hnodes =>
      rw [expand_cons (opened?_of_lexeme_plain _ hx)]
      exact .plain hx (ih hnodes)
  | placeholder hx _ ih =>
    cases hnodes with
    | placeholder hnodes =>
      rw [expand_cons (opened?_of_lexeme _ hx)]
      exact .placeholder hx (ih hnodes)
  | loop => cases hnodes
  | single hx _ hbranch hy _ _ ih =>
    cases hnodes with
    | single hinner hnodes =>
      have hfits := fits_of_spell hbranch hinner
      rw [expand_block (opened?_of_lexeme _ hx) (fun q hq => (hfits q hq).ne rfl) (tag?_of_lexeme hy),
        Option.getD_some, branch_of_forall fun q hq => (hfits q hq).ne rfl, List.flatMap_cons,
        Node.resolve]
      refine Spells.append ?_ (ih hnodes)
      split
      · exact hbranch
      · exact .nil
  | @double x y z inner inner' xs c offset whenTrue whenFalse nodes hx _ htrue hy hfalse hz _ _ _ ih =>
    cases hnodes with
    | double hinner hinner' hnodes =>
      -- no middle tag and no end in the branches, so that both are cut off where they end
      have hfits := fits_of_spell htrue hinner
      have hfits' := fits_of_spell hfalse hinner'
      have hbody : ∀ q ∈ inner ++ y :: inner', q.tag? ≠ some .ifClose := by
        rw [List.forall_mem_append, List.forall_mem_cons]
        exact ⟨fun q hq => (hfits q hq).ne rfl, tag?_ne_of_lexeme hy (by simp),
          fun q hq => (hfits' q hq).ne rfl⟩
      have hsplit : inner ++ y :: (inner' ++ z :: xs) = (inner ++ y :: inner') ++ z :: xs := by simp
      rw [hsplit, expand_block (opened?_of_lexeme _ hx) hbody (tag?_of_lexeme hz), Option.getD_some,
        branch_append (fun q hq => (hfits q hq).ne rfl) (tag?_of_lexeme hy), List.flatMap_cons,
        Node.resolve]
      refine Spells.append ?_ (ih hnodes)
      split
      · exact htrue
      · exact hfalse

/-! ### The last pass -/

/-- Once no block is left, clearing leaves the plain text of the tree. -/
theorem clear_of_spell (h : Spell ps nodes) (hnodes : Resolvable bound true true nodes) :
    join (clear ps) = (String.join (nodes.map Node.text)).toList ∧ ∀ q ∈ clear ps, q.tag? = none := by
  induction h with
  | nil => exact ⟨rfl, nofun⟩
  | @plain x xs text nodes hx _ ih =>
    cases hnodes with
    | plain hnodes =>
      obtain ⟨hjoin, hplain⟩ := ih hnodes
      have htag := tag?_of_lexeme_plain hx
      have hkeep : isPlaceholder x = false := by rw [isPlaceholder, htag]
      rw [clear, List.filter_cons, hkeep, List.map_cons, String.join_cons, String.toList_append,
        ← hjoin, eq_plain_of_lexeme hx]
      exact ⟨rfl, List.forall_mem_cons.2 ⟨rfl, hplain⟩⟩
  | @placeholder x xs path nodes hx _ ih =>
    cases hnodes with
    | placeholder hnodes =>
      obtain ⟨hjoin, hplain⟩ := ih hnodes
      have hdrop : isPlaceholder x = true := by rw [isPlaceholder, tag?_of_lexeme hx]
      rw [clear, List.filter_cons, hdrop, List.map_cons, String.join_cons, String.toList_append,
        ← hjoin]
      exact ⟨rfl, hplain⟩
  | loop => cases hnodes
  | single => cases hnodes
  | double => cases hnodes

/-! ### A whole rendering -/

/-- The passes over pieces that spell a resolvable tree leave the text of the tree rendered, and no
tag. -/
theorem clear_expanded_of_spell {missing : MissingBlocks} {context : Context} (h : Spell ps nodes)
    (hnodes : Resolvable (fun key => missing = .remove ∨ (context.merged.get? key).isSome)
      false false nodes) :
    join (clear (Pieces.expanded missing context ps)) = (Node.rendered context nodes).toList ∧
      ∀ q ∈ clear (Pieces.expanded missing context ps), q.tag? = none := by
  -- the pieces spell the tree after each pass, and the tree stays resolvable
  have hfilled := spell_fillAll h context
  have hlooped := spell_loops context.merged hfilled hnodes.fillAll
  have hiffed := spell_conditionals context.merged hlooped hnodes.fillAll.expandLoopsAll
  exact clear_of_spell hiffed hnodes.fillAll.expandLoopsAll.resolve

/-- **Rendering text renders trees.** A clean template whose blocks are apart is rendered as its tree
is, in every clean context and under every policy that leaves no loop as it is. -/
theorem render_eq_rendered {template : String} {nodes : List Node} {context : Context}
    {missing : MissingBlocks} (htemplate : Template.isClean template = true)
    (hnodes : Node.ofSource template = .ok nodes) (hapart : Node.areApart nodes = true)
    (hcontext : context.isClean = true)
    (hbound : ∀ key ∈ Node.loopKeys nodes, missing = .remove ∨ (context.merged.get? key).isSome) :
    render missing template context = Node.rendered context nodes := by
  have hlegible := Template.legible_of_isClean htemplate
  have hpieces : ∀ q ∈ recogniser.pieces template.toList,
      Stock (recogniser.pieces template.toList) q := fun _ hq => .inl hq
  have hrender := render_eq_join hlegible hpieces (toList_eq_join template) missing hcontext
  have hresolvable := resolvable_of_areApart hapart hbound
  have hclear := clear_expanded_of_spell (spells_pieces hnodes) hresolvable
  exact String.toList_inj.1 (hrender.trans hclear.1)

/-- A loop in a conditional, rendered as its tree is. -/
theorem render_loop_in_conditional :
    render .preserve ("\x7b\x7b#if ok\x7d\x7d\x7b\x7b#each xs\x7d\x7d[\x7b\x7bxs.f\x7d\x7d]" ++
        "\x7b\x7b/each\x7d\x7d\x7b\x7b#else\x7d\x7dnone\x7b\x7b/if\x7d\x7d\x7b\x7bok\x7d\x7d")
      (.single [("ok", .bool true),
        ("xs", .sequence [.mapping [("f", .string "1")], .mapping [("f", .string "2")]])]) =
      "[1][2]true" := by
  have htokens : Token.ofSource ("\x7b\x7b#if ok\x7d\x7d\x7b\x7b#each xs\x7d\x7d[\x7b\x7bxs.f\x7d\x7d]" ++
        "\x7b\x7b/each\x7d\x7d\x7b\x7b#else\x7d\x7dnone\x7b\x7b/if\x7d\x7d\x7b\x7bok\x7d\x7d") =
      [⟨.tag (.ifOpen ⟨"ok", none⟩), 0, 10⟩, ⟨.tag (.eachOpen "xs"), 10, 22⟩, ⟨.plain "[", 22, 23⟩,
        ⟨.tag (.placeholder "xs.f"), 23, 31⟩, ⟨.plain "]", 31, 32⟩, ⟨.tag .eachClose, 32, 41⟩,
        ⟨.tag .otherwise, 41, 50⟩, ⟨.plain "none", 50, 54⟩, ⟨.tag .ifClose, 54, 61⟩,
        ⟨.tag (.placeholder "ok"), 61, 67⟩] := by decide +kernel
  have hnodes : Node.ofSource ("\x7b\x7b#if ok\x7d\x7d\x7b\x7b#each xs\x7d\x7d[\x7b\x7bxs.f\x7d\x7d]" ++
        "\x7b\x7b/each\x7d\x7d\x7b\x7b#else\x7d\x7dnone\x7b\x7b/if\x7d\x7d\x7b\x7bok\x7d\x7d") =
      .ok [.conditional ⟨"ok", none⟩ 0
        [.loop "xs" 10 [.plain "[", .placeholder "xs.f", .plain "]"]] (some [.plain "none"]),
        .placeholder "ok"] := by
    rw [ofSource_eq_ok, htokens]
    rfl
  rw [render_eq_rendered (by decide +kernel) hnodes (by decide +kernel) (by decide +kernel)]
  · decide +kernel
  · show ∀ key ∈ ["xs"], _
    exact List.forall_mem_singleton.2 (.inr (by decide +kernel))

end Stencil
