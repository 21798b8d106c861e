import Stencil.Proofs.Branches
import Stencil.Proofs.Offers
import Stencil.Proofs.Validation

/-!
# What a rendering depends on

The outline of a template lists the keys that its tags name. Every pass looks up keys that are named by
the tags in the text before it, and where the pieces of the template are legible these tags all come
from the template. So a rendering depends on the listed keys only: two mappings that agree on them are
not told apart, whatever else they hold. Where tags are put together in other ways, out of an operand or
out of the texts around a placeholder, a key that is not listed can be looked up.

* `isAmong_of_spell`: the tags with keys that spell a tree are at its sites.
* `puts_congr_of_agree`, `expand_congr`: passes look up what the tags before them name.
* `render_eq_of_agree`: a rendering depends on the listed keys.
* `unlisted_key_is_read`: two templates that look up a key which is not listed.
-/

namespace Stencil

open Text Tag Pieces

variable {ps : Pieces} {p q : Piece Tag} {nodes : List Node} {sites sites' : List Site}
  {m m' : Mapping} {missing : MissingBlocks}

/-! ### The tags of a template -/

/-- The tag names a key. -/
def Tag.isKeyed : Tag → Bool
  | .placeholder _ => true
  | .eachOpen _ => true
  | .ifOpen _ => true
  | _ => false

/-- The tag that stands at a site. -/
def Site.tag : Site → Tag
  | placeholder path => .placeholder path
  | loop key _ _ => .eachOpen key
  | conditional condition _ _ => .ifOpen condition

/-- The tag of the piece stands at one of the sites, if it names a key. -/
def IsAmong (sites : List Site) (p : Piece Tag) : Prop :=
  ∀ tag, p.tag? = some tag → tag.isKeyed = true → tag ∈ sites.map Site.tag

/-- More sites have more pieces among them. -/
theorem IsAmong.mono (h : IsAmong sites p) (hsites : sites ⊆ sites') : IsAmong sites' p := by
  intro tag htag hkeyed
  exact List.map_subset Site.tag hsites (h tag htag hkeyed)

theorem isAmong_of_lexeme {tag : Tag} (hp : p.lexeme = .tag tag)
    (h : tag.isKeyed = true → tag ∈ sites.map Site.tag) : IsAmong sites p := by
  intro tag' htag
  rw [tag?_of_lexeme hp] at htag
  rw [← Option.some.inj htag]
  exact h

theorem isAmong_of_other {tag : Tag} (hp : p.lexeme = .tag tag) (h : tag.isKeyed = false) :
    IsAmong sites p := by
  refine isAmong_of_lexeme hp fun hkeyed => ?_
  rw [h] at hkeyed
  cases hkeyed

theorem isAmong_of_plain {text : String} (hp : p.lexeme = .plain text) : IsAmong sites p := by
  intro tag htag
  rw [tag?_of_lexeme_plain hp] at htag
  cases htag

/-- **The sites of a tree** have all tags with keys of the pieces that spell the tree. -/
theorem isAmong_of_spell (h : Spell ps nodes) (around : List Enclosing) :
    ∀ q ∈ ps, IsAmong (Node.sitesOfAll around nodes) q := by
  -- the sites of a body are among those of its block
  induction h generalizing around with
  | nil => exact fun q hq => absurd hq List.not_mem_nil
  | plain hx _ ih => exact List.forall_mem_cons.2 ⟨isAmong_of_plain hx, ih around⟩
  | placeholder hx _ ih =>
    rw [Node.sitesOfAll, Node.sites]
    refine List.forall_mem_cons.2 ⟨isAmong_of_lexeme hx fun _ => List.mem_cons_self, fun q hq => ?_⟩
    exact (ih around q hq).mono (List.subset_append_right _ _)
  | loop hx _ _ hy _ ihbody ih =>
    rw [Node.sitesOfAll, Node.sites]
    rw [List.forall_mem_cons, List.forall_mem_append, List.forall_mem_cons]
    refine ⟨isAmong_of_lexeme hx fun _ => List.mem_cons_self, fun q hq => ?_,
      isAmong_of_other hy rfl, fun q hq => ?_⟩
    · exact (ihbody _ q hq).mono (List.subset_append_of_subset_left _ (List.subset_cons_self _ _))
    · exact (ih around q hq).mono (List.subset_append_right _ _)
  | single hx _ _ hy _ ihbranch ih =>
    rw [Node.sitesOfAll, Node.sites]
    rw [List.forall_mem_cons, List.forall_mem_append, List.forall_mem_cons]
    refine ⟨isAmong_of_lexeme hx fun _ => List.mem_cons_self, fun q hq => ?_,
      isAmong_of_other hy rfl, fun q hq => ?_⟩
    · refine (ihbranch (.conditional :: around) q hq).mono (List.subset_append_of_subset_left _ ?_)
      exact List.subset_cons_of_subset _ (List.subset_append_left _ _)
    · exact (ih around q hq).mono (List.subset_append_right _ _)
  | double hx _ _ hy _ hz _ ihtrue ihfalse ih =>
    rw [Node.sitesOfAll, Node.sites]
    rw [List.forall_mem_cons, List.forall_mem_append, List.forall_mem_cons, List.forall_mem_append,
      List.forall_mem_cons]
    refine ⟨isAmong_of_lexeme hx fun _ => List.mem_cons_self, fun q hq => ?_,
      isAmong_of_other hy rfl, fun q hq => ?_, isAmong_of_other hz rfl, fun q hq => ?_⟩
    · refine (ihtrue (.conditional :: around) q hq).mono (List.subset_append_of_subset_left _ ?_)
      exact List.subset_cons_of_subset _ (List.subset_append_left _ _)
    · refine (ihfalse (.conditional :: around) q hq).mono (List.subset_append_of_subset_left _ ?_)
      exact List.subset_cons_of_subset _ (List.subset_append_right _ _)
    · exact (ih around q hq).mono (List.subset_append_right _ _)

/-! ### Mappings that agree -/

/-- The mappings bind the keys that an outline lists to the same values, or both do not bind them. -/
structure Agree (outline : Outline) (m m' : Mapping) : Prop where
  placeholders : ∀ key ∈ outline.placeholders, m.get? key = m'.get? key
  loops : ∀ key ∈ outline.loops, m.get? key = m'.get? key
  conditions : ∀ key ∈ outline.conditions, m.get? key = m'.get? key

/-- The mappings bind the key that the tag of the piece names alike. -/
def AgreeAt (m m' : Mapping) (p : Piece Tag) : Prop :=
  ∀ tag, p.tag? = some tag →
    match tag with
    | .placeholder path => m.get? path = m'.get? path
    | .eachOpen key => m.get? key = m'.get? key
    | .ifOpen c => m.get? c.key = m'.get? c.key
    | _ => True

/-- Data that agree on an outline agree at each piece of it. -/
theorem agreeAt_of_isAmong (h : Agree (.ofNodes nodes) m m')
    (hp : IsAmong (Node.sitesOfAll [] nodes) p) : AgreeAt m m' p := by
  intro tag htag
  have hmem := hp tag htag
  cases tag with
  | placeholder path =>
    obtain ⟨site, hsite, he⟩ := List.mem_map.1 (hmem rfl)
    cases site <;> cases he
    exact h.placeholders path (mem_names (List.mem_filterMap.2 ⟨_, hsite, rfl⟩))
  | eachOpen key =>
    obtain ⟨site, hsite, he⟩ := List.mem_map.1 (hmem rfl)
    cases site <;> cases he
    exact h.loops key (mem_names (List.mem_filterMap.2 ⟨_, hsite, rfl⟩))
  | ifOpen c =>
    obtain ⟨site, hsite, he⟩ := List.mem_map.1 (hmem rfl)
    cases site <;> cases he
    exact h.conditions c.key (mem_names (List.mem_filterMap.2 ⟨_, hsite, rfl⟩))
  | _ => trivial

/-! ### The passes -/

/-- Two passes that replace the blocks in the same way do the same. -/
theorem expand_congr {α : Type} {k : BlockKind α} {f g : α → Pieces → Option Pieces}
    (h : ∀ q ∈ ps, ∀ x, k.opened? q = some x → f x = g x) : expand k f ps = expand k g ps := by
  induction ps using expand_induction k with
  | hnil => rw [expand_nil, expand_nil]
  | hcons p ps hopen ih =>
    have hstep : ∀ f, expand k f (p :: ps) = p :: expand k f ps :=
      fun f => hopen.elim expand_cons expand_unclosed
    rw [hstep, hstep, ih fun q hq => h q (List.mem_cons_of_mem p hq)]
  | hblock p x body q ps hp hbody hq ih =>
    have hrest : ∀ r ∈ ps, ∀ x, k.opened? r = some x → f x = g x := by
      intro r hr
      exact h r (List.mem_cons_of_mem p (List.mem_append_right body (List.mem_cons_of_mem q hr)))
    rw [expand_block hp hbody hq, expand_block hp hbody hq, h p List.mem_cons_self x hp, ih hrest]

/-- Data that agree at each piece fill it in the same way. -/
theorem puts_congr_of_agree (hm : Fields.Sorted m) (hm' : Fields.Sorted m')
    (h : ∀ q ∈ ps, AgreeAt m m' q) : fillAll ps (.single m) = fillAll ps (.single m') := by
  have hoffers : ∀ {m : Mapping}, Fields.Sorted m → ∀ path,
      offers (Context.single m).fills path = ((scalar? path m).map Value.display).toList := by
    intro m hm path
    have hfills : (Context.single m).fills = scalars m := List.append_nil _
    rw [hfills, offers_scalars hm]
  rw [fillAll_eq_puts, fillAll_eq_puts]
  refine puts_congr ?_
  rintro path ⟨q, hq, htag⟩
  have hget : m.get? path = m'.get? path := h q hq _ htag
  rw [hoffers hm, hoffers hm', scalar?, scalar?, hget]

/-- Data that agree at each piece have the same rows. -/
theorem loops_congr_of_agree (h : ∀ q ∈ ps, AgreeAt m m' q) :
    loops m missing ps = loops m' missing ps := by
  refine expand_congr fun q hq key hopen => ?_
  obtain ⟨lexeme, rfl⟩ := exists_of_opened? hopen
  have hget : m.get? key = m'.get? key := h _ hq _ rfl
  funext body
  unfold rows?
  rw [hget]

/-- Data that agree at each piece choose the same branches. -/
theorem conditionals_congr_of_agree (h : ∀ q ∈ ps, AgreeAt m m' q) :
    conditionals m ps = conditionals m' ps := by
  refine expand_congr fun q hq c hopen => ?_
  obtain ⟨lexeme, rfl⟩ := exists_of_opened? hopen
  have hget : m.get? c.key = m'.get? c.key := h _ hq _ rfl
  funext body
  rw [Condition.holds, Condition.holds, hget]

/-- **The outline names every key that a rendering depends on.** A template that is validated, and whose
pieces are legible, is rendered alike in two clean mappings that agree on the keys which its outline
lists, under either policy and whatever else the mappings hold. -/
theorem render_eq_of_agree {r : Renderer} {template : String} {outline : Outline}
    (missing : MissingBlocks) (houtline : r.outline template = .ok outline)
    (hlegible : Legible (Stock (recogniser.pieces template.toList)))
    (hm : Fields.Sorted m) (hm' : Fields.Sorted m') (hclean : Value.areCleanFields m = true)
    (hclean' : Value.areCleanFields m' = true) (hagree : Agree outline m m') :
    render missing template (.single m) = render missing template (.single m') := by
  obtain ⟨-, nodes, hnodes, rfl⟩ := outline_eq_ok.1 houtline
  have hcontext : ∀ {m : Mapping}, Value.areCleanFields m = true →
      (Context.single m).isClean = true := by
    intro m hm
    exact List.all_eq_true.2 (List.forall_mem_singleton.2 hm)
  have hps : ∀ q ∈ recogniser.pieces template.toList, Stock (recogniser.pieces template.toList) q :=
    fun _ hq => .inl hq
  have hplain : ∀ text, AgreeAt m m' (.plain text) := nofun
  have hlisted : ∀ q ∈ recogniser.pieces template.toList, AgreeAt m m' q := by
    intro q hq
    exact agreeAt_of_isAmong hagree (isAmong_of_spell (spells_pieces hnodes) [] q hq)
  -- each pass leaves no tags but those of the template
  have hfilled : ∀ q ∈ fillAll (recogniser.pieces template.toList) (.single m'), AgreeAt m m' q := by
    rw [fillAll_eq_puts]
    exact forall_mem_puts hplain hlisted
  have hlooped : ∀ q ∈ loops m' missing (fillAll (recogniser.pieces template.toList) (.single m')),
      AgreeAt m m' q := forall_mem_loops hplain hfilled
  have hexpanded : Pieces.expanded missing (.single m) (recogniser.pieces template.toList) =
      Pieces.expanded missing (.single m') (recogniser.pieces template.toList) := by
    unfold Pieces.expanded
    rw [puts_congr_of_agree hm hm' hlisted, Context.merged_single, Context.merged_single,
      loops_congr_of_agree hfilled, conditionals_congr_of_agree hlooped]
  apply String.toList_inj.1
  rw [render_eq_join hlegible hps (toList_eq_join template) missing (hcontext hclean),
    render_eq_join hlegible hps (toList_eq_join template) missing (hcontext hclean'), hexpanded]

/-- A key that no tag names makes no difference. -/
theorem render_eq_of_other_key :
    render .preserve
        "\x7b\x7b#each xs\x7d\x7d\x7b\x7bxs.v\x7d\x7d\x7b\x7b/each\x7d\x7d\x7b\x7bx\x7d\x7d"
        (.single [("x", .string "1"), ("xs", .mapping [("v", .string "2")])]) =
      render .preserve
        "\x7b\x7b#each xs\x7d\x7d\x7b\x7bxs.v\x7d\x7d\x7b\x7b/each\x7d\x7d\x7b\x7bx\x7d\x7d"
        (.single [("v", .string "3"), ("x", .string "1"), ("xs", .mapping [("v", .string "2")])]) := by
  have htokens : Token.ofSource
      "\x7b\x7b#each xs\x7d\x7d\x7b\x7bxs.v\x7d\x7d\x7b\x7b/each\x7d\x7d\x7b\x7bx\x7d\x7d" =
      [⟨.tag (.eachOpen "xs"), 0, 12⟩, ⟨.tag (.placeholder "xs.v"), 12, 20⟩, ⟨.tag .eachClose, 20, 29⟩,
        ⟨.tag (.placeholder "x"), 29, 34⟩] := by decide +kernel
  have houtline := outline_of_tokens (by decide +kernel) htokens rfl
  refine render_eq_of_agree .preserve houtline (Template.legible_of_isClean (by decide +kernel))
    (by decide +kernel) (by decide +kernel) (by decide +kernel) (by decide +kernel) ⟨?_, ?_, nofun⟩
  · show ∀ key ∈ ["x", "xs.v"], _
    exact List.forall_mem_cons.2 ⟨rfl, List.forall_mem_singleton.2 rfl⟩
  · show ∀ key ∈ ["xs"], _
    exact List.forall_mem_singleton.2 rfl

/-- The template is validated, and yet told apart two clean mappings that agree on what its outline
lists. -/
def ReadsUnlisted (template : String) (m m' : Mapping) : Prop :=
  (∃ outline, Renderer.default.outline template = .ok outline ∧ Agree outline m m') ∧
  Value.areCleanFields m = true ∧ Value.areCleanFields m' = true ∧
  render .preserve template (.single m) ≠ render .preserve template (.single m')

/-- A placeholder in the operand of a tag is filled, and so is one that is put together around an empty
text. Neither is a tag of the template, so that its key is not listed. -/
theorem unlisted_key_is_read :
    ReadsUnlisted "\x7b\x7b#if a == \x7b\x7bb\x7d\x7dx\x7b\x7b/if\x7d\x7d" [] [("b", .string "1")] ∧
      ReadsUnlisted "\x7b\x7b\x7bx\x7d\x7d\x7by\x7d\x7d" [("x", .string "")]
        [("x", .string ""), ("y", .string "1")] := by
  constructor
  · have htokens : Token.ofSource "\x7b\x7b#if a == \x7b\x7bb\x7d\x7dx\x7b\x7b/if\x7d\x7d" =
        [⟨.tag (.ifOpen ⟨"a", some ⟨.equal, "\x7b\x7bb"⟩⟩), 0, 16⟩, ⟨.plain "x", 16, 17⟩,
          ⟨.tag .ifClose, 17, 24⟩] := by decide +kernel
    refine ⟨⟨_, outline_of_tokens (by decide +kernel) htokens rfl, nofun, nofun, ?_⟩, ?_⟩
    · show ∀ key ∈ ["a"], _
      exact List.forall_mem_singleton.2 rfl
    · decide +kernel
  · have htokens : Token.ofSource "\x7b\x7b\x7bx\x7d\x7d\x7by\x7d\x7d" =
        [⟨.plain "\x7b", 0, 1⟩, ⟨.tag (.placeholder "x"), 1, 6⟩, ⟨.plain "\x7by\x7d\x7d", 6, 10⟩] := by
      decide +kernel
    refine ⟨⟨_, outline_of_tokens (by decide +kernel) htokens rfl, ?_, nofun, nofun⟩, ?_⟩
    · show ∀ key ∈ ["x"], _
      exact List.forall_mem_singleton.2 rfl
    · decide +kernel

end Stencil
