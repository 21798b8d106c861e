import Stencil.Proofs.Concatenation
import Stencil.Proofs.Offers
import Stencil.Proofs.Untouched

/-!
# Scalars and the merged view

Placeholders are filled entry by entry, and blocks read the merged view of all entries. The first
placeholder of a key takes the last scalar that an entry binds the key to. Where the merged view binds
the key to a scalar, this is that scalar. Where it binds it to a sequence or a mapping, no entry may
bind the key to a scalar if the key is to be left to the loops over it: a scalar that is overridden by
a container is filled all the same.

* `Legible.cut_of_braced`: a placeholder in the text of legible pieces is one of them.
* `FirstTakes`, `LeftToLoops`: what becomes of the placeholders of a key.
* `scalars_agree_with_merged`: which of the two it is.
* `overridden_scalar_is_shown`: a scalar that is filled though a later entry overrides it.
-/

namespace Stencil

open Text Tag Pieces

variable {K : Piece Tag → Prop} {ps a b : Pieces} {p : Piece Tag} {tag : Tag}
  {s t front rest : List Char} {key path : String} {context : Context}

/-! ### Where tags stand in a text -/

/-- The piece that is the placeholder of a key. -/
def Text.Piece.placeholder (key : String) : Piece Tag := .found (.placeholder key) (braced key.toList)

theorem Text.Piece.tag?_placeholder (key : String) :
    (Piece.placeholder key).tag? = some (.placeholder key) := rfl

namespace Legible

/-- A placeholder in the text of legible pieces is one of the pieces. -/
theorem cut_of_braced (h : Legible K) (hps : ∀ q ∈ ps, K q) (hkey : isPath key.toList = true)
    (hjoin : join ps = s ++ (braced key.toList ++ t)) :
    ∃ a b, ps = a ++ .placeholder key :: b ∧ join a = s ∧ join b = t := by
  have hread := placeholderPath_read_iff.1 (Placeholder.read_braced hkey t)
  rw [String.ofList_toList] at hread
  exact (h.inPlace hps).cut_of_read hjoin hread

/-- The first placeholder of a path in the text of legible pieces is the first among the pieces. -/
theorem cut_of_split? (h : Legible K) (hps : ∀ q ∈ ps, K q) (hkey : isPath key.toList = true)
    (hsplit : split? (braced key.toList) [] (join ps) = some (s, t)) :
    ∃ a b, ps = a ++ .placeholder key :: b ∧ join a = s ∧ join b = t ∧
      ¬ Reads a key := by
  rw [h.split?_join (sign_placeholder hkey) hps] at hsplit
  obtain ⟨⟨a, p, b⟩, hcut, he⟩ := Option.map_eq_some_iff.1 hsplit
  obtain ⟨rfl, rfl⟩ := Prod.mk.inj he
  obtain ⟨rfl, hp, ha⟩ := cutAt?_eq_some hcut
  obtain ⟨lexeme, rfl⟩ := exists_of_tag? hp
  rw [List.forall_mem_append, List.forall_mem_cons] at hps
  obtain ⟨rfl, -⟩ := (sign_placeholder hkey).1 (h.read hps.2.1 hps.2.2)
  refine ⟨a, b, rfl, rfl, rfl, ?_⟩
  rintro ⟨q, hq, htag⟩
  exact ha q hq htag

end Legible

/-- Every loop that opens in the text is closed in it. -/
def ClosesLoops (s : List Char) : Prop :=
  ∀ u, u <:+ s → (loopKey.read u).isSome = true → (LoopBlock.recogniser.read u).isSome = true

theorem Legible.contained_of_closesLoops (h : Legible K) (hps : ∀ q ∈ ps, K q)
    (hloops : ClosesLoops (join ps)) : Contained .loop ps := by
  induction ps with
  | nil => trivial
  | cons p ps ih =>
    rw [List.forall_mem_cons] at hps
    refine ⟨fun hopen => ?_, ih hps.2 fun u hu => hloops u (hu.trans ⟨p.text, rfl⟩)⟩
    obtain ⟨key, hkey⟩ := Option.ne_none_iff_exists'.1 hopen
    obtain ⟨lexeme, rfl⟩ := exists_of_opened? hkey
    have hread := loopKey_read_iff.2 (h.read hps.1 hps.2)
    have hblock := hloops _ (List.suffix_refl _) (by rw [join_cons, Piece.text, hread]; rfl)
    -- a block is read here, and so the closing tag is found behind the opening one
    by_cases hclosed : ∃ q ∈ ps, q.tag? = some BlockKind.loop.closing
    · exact hclosed
    · have hunclosed : ∀ q ∈ ps, q.tag? ≠ some BlockKind.loop.closing :=
        fun q hq hclose => hclosed ⟨q, hq, hclose⟩
      rw [join_cons, Piece.text, h.read_unclosed readsBlocks_loop hps.1 hps.2 hunclosed] at hblock
      cases hblock

/-! ### The placeholders of one key -/

/-- A placeholder that stands between other pieces takes the first offer that is left to it. -/
theorem puts_append_placeholder (hp : p.tag? = some (.placeholder key))
    (fills : List (String × String)) (a b : Pieces) :
    ∃ left, puts fills (a ++ p :: b) =
        puts fills a ++ taken p ((offers fills key).drop (uses key a)).head? :: puts left b ∧
      offers left key = (offers fills key).drop (uses key a + 1) := by
  obtain ⟨left, hputs, hleft⟩ := puts_append_drop fills a (p :: b)
  refine ⟨withoutOffer key left, ?_, ?_⟩
  · rw [hputs, puts_cons_placeholder hp, hleft]
  · rw [offers_withoutOffer, if_pos rfl, hleft, List.tail_drop]

/-- The body of a loop has the fills that what stands in front of it leaves. -/
theorem puts_loop (fills : List (String × String)) (a body b : Pieces) (loop : String)
    (front : List Char) : ∃ inner behind,
      puts fills (a ++ .found (.eachOpen loop) front :: (body ++ .found .eachClose eachCloseText :: b)) =
        puts fills a ++ .found (.eachOpen loop) front ::
          (puts inner body ++ .found .eachClose eachCloseText :: puts behind b) ∧
      ∀ path, offers inner path = (offers fills path).drop (uses path a) := by
  have hopen : ∀ path, (Piece.found (Tag.eachOpen loop) front).tag? ≠ some (.placeholder path) := by
    simp [Piece.tag?]
  have hclose : ∀ path, (Piece.found Tag.eachClose eachCloseText).tag? ≠ some (.placeholder path) := by
    simp [Piece.tag?]
  obtain ⟨inner, hputs, hinner⟩ := puts_append_drop fills a (.found (.eachOpen loop) front ::
    (body ++ .found .eachClose eachCloseText :: b))
  obtain ⟨behind, hbody, -⟩ := puts_append_drop inner body (.found .eachClose eachCloseText :: b)
  refine ⟨inner, behind, ?_, hinner⟩
  rw [hputs, puts_cons hopen, hbody, puts_cons hclose]

/-- The first placeholder of a key becomes the text of a value, and what is in front of it is filled as
if it stood alone. -/
def FirstTakes (template : String) (context : Context) (key : String) (value : Value) : Prop :=
  ∀ s t, split? (braced key.toList) [] template.toList = some (s, t) → ∃ t',
    Placeholder.fillAll template.toList context =
      Placeholder.fillAll s context ++ (value.display.toList ++ t')

/-- **A key that is left to the loops over it**, which bind it to the rows of a value. -/
structure LeftToLoops (missing : MissingBlocks) (template : String) (context : Context) (key : String)
    (value : Value) : Prop where
  /-- All placeholders of the key are still there when the others have been filled, the first of any of
  them behind what is in front of it. -/
  kept : ∀ s parts, template.toList = Placeholder.weave s parts →
    (∀ f ∈ parts.map Prod.fst, f = braced key.toList) → ∃ parts',
      Placeholder.fillAll template.toList context =
        Placeholder.weave (Placeholder.fillAll s context) parts' ∧
      parts'.map Prod.fst = parts.map Prod.fst
  /-- Where the loop pass comes to a loop over the key, the rows of the value take the place of the
  loop, and each scalar among them is put in place of the first placeholder of the key in the body. -/
  bound : ∀ s u body lexeme rest, template.toList = s ++ u → ClosesLoops s →
    LoopBlock.recogniser.read u = some (⟨key, body⟩, lexeme, rest) → ∃ body' lexeme' rest',
      Placeholder.fillAll template.toList context =
        Placeholder.fillAll s context ++ (lexeme' ++ rest') ∧
      LoopBlock.recogniser.read (lexeme' ++ rest') = some (⟨key, body'⟩, lexeme', rest') ∧
      Expansion.loops context.merged missing (Placeholder.fillAll template.toList context) =
        Expansion.loops context.merged missing (Placeholder.fillAll s context) ++
          (value.rows.flatMap (LoopBlock.expandRow ⟨key, body'⟩) ++
            Expansion.loops context.merged missing rest') ∧
      ∀ x y, split? (braced key.toList) [] body = some (x, y) → ∃ x' y',
        split? (braced key.toList) [] body' = some (x', y') ∧
        ∀ row : Value, row.isScalar = true →
          LoopBlock.expandRow ⟨key, body'⟩ row = x' ++ (row.display.toList ++ y')
  /-- No placeholder of the key reaches the rendered text. -/
  stripped : ¬ braced key.toList <:+: (render missing template context).toList

variable {template : String} {value : Value} {missing : MissingBlocks}

/-- The last scalar that is offered to a key is the one that its first placeholder takes. -/
theorem firstTakes_of_scalarsOf (htemplate : Template.isClean template = true)
    (hcontext : context.isClean = true) (hsorted : context.IsSorted) (hkey : isPath key.toList = true)
    {values : List Value} (hscalars : context.scalarsOf key = value :: values) :
    FirstTakes template context key value := by
  intro s t hsplit
  have hlegible := Template.legible_of_isClean htemplate
  have hps := stock_pieces template.toList
  rw [toList_eq_join template] at hsplit ⊢
  obtain ⟨a, b, hpieces, rfl, rfl, hfirst⟩ := hlegible.cut_of_split? hps hkey hsplit
  rw [hpieces] at hps hlegible ⊢
  have hfront := (List.forall_mem_append.1 hps).1
  obtain ⟨left, hputs, -⟩ := puts_append_placeholder (Piece.tag?_placeholder key) context.fills a b
  -- the first placeholder has all offers before it, and takes the first of them
  rw [uses_eq_zero.2 hfirst, List.drop_zero, offers_fills hsorted, hscalars] at hputs
  refine ⟨join (puts left b), ?_⟩
  rw [(hlegible.fillAll_join hcontext hps).1, (hlegible.fillAll_join hcontext hfront).1,
    fillAll_eq_puts, fillAll_eq_puts, hputs, join_append, join_cons]
  rfl

theorem loop_closing_ne (path : String) : BlockKind.loop.closing ≠ .placeholder path :=
  Tag.noConfusion

namespace Legible

variable {body : Pieces}

/-- **Where nothing is offered to a key, all its placeholders are kept**, and the first of any of them
stands behind what is in front of it, as that is filled alone. -/
theorem puts_weave (h : Legible K) (hkey : isPath key.toList = true)
    {parts : List (List Char × List Char)} (hparts : ∀ f ∈ parts.map Prod.fst, f = braced key.toList)
    {fills : List (String × String)} (hoffers : offers fills key = []) (hps : ∀ q ∈ ps, K q)
    (hjoin : join ps = Placeholder.weave s parts) : ∃ a parts', join a = s ∧ (∀ q ∈ a, q ∈ ps) ∧
      join (puts fills ps) = Placeholder.weave (join (puts fills a)) parts' ∧
      parts'.map Prod.fst = parts.map Prod.fst := by
  induction parts generalizing s ps fills with
  | nil => exact ⟨ps, [], hjoin, fun _ hq => hq, rfl, rfl⟩
  | cons part parts ih =>
    obtain ⟨f, t⟩ := part
    rw [List.map_cons, List.forall_mem_cons] at hparts
    obtain ⟨rfl, hparts⟩ := hparts
    obtain ⟨a, b, rfl, rfl, hb⟩ := h.cut_of_braced hps hkey hjoin
    obtain ⟨left, hputs, hleft⟩ := puts_append_placeholder (Piece.tag?_placeholder key) fills a b
    rw [hoffers, List.drop_nil] at hputs hleft
    rw [List.forall_mem_append, List.forall_mem_cons] at hps
    obtain ⟨a', parts', -, -, hbehind, hfixed⟩ := ih hparts hleft hps.2.2 hb
    refine ⟨a, (braced key.toList, join (puts left a')) :: parts', rfl,
      fun q hq => List.mem_append_left _ hq, ?_, ?_⟩
    · rw [hputs, join_append, join_cons, hbehind]
      rfl
    · rw [List.map_cons, List.map_cons, hfixed]

/-- The first placeholder of a key in the body of a loop stays where it is when nothing is offered to
the key, and a row that is a scalar is put in its place. -/
theorem expandRow_puts (h : Legible K) (hkey : isPath key.toList = true)
    {fills : List (String × String)} (hoffers : offers fills key = []) (hbody : ∀ q ∈ body, K q)
    (hfilled : ∀ q ∈ puts fills body, K q)
    (hsplit : split? (braced key.toList) [] (join body) = some (s, t)) :
    ∃ s' t', split? (braced key.toList) [] (join (puts fills body)) = some (s', t') ∧
      ∀ row : Value, row.isScalar = true →
        LoopBlock.expandRow ⟨key, join (puts fills body)⟩ row = s' ++ (row.display.toList ++ t') := by
  obtain ⟨a, b, rfl, -, -, hfirst⟩ := h.cut_of_split? hbody hkey hsplit
  obtain ⟨left, hputs, -⟩ := puts_append_placeholder (Piece.tag?_placeholder key) fills a b
  rw [hoffers, List.drop_nil] at hputs
  -- nothing in front of the placeholder reads the key, with other placeholders filled or not
  have hfree : ∀ q ∈ puts fills a, q.tag? ≠ some (.placeholder key) :=
    forall_mem_puts nofun fun q hq htag => hfirst ⟨q, hq, htag⟩
  have hfound : split? (braced key.toList) [] (join (puts fills (a ++ .placeholder key :: b))) =
      some (join (puts fills a), join (puts left b)) := by
    rw [h.split?_join (sign_placeholder hkey) hfilled, hputs, List.head?_nil, taken,
      cutAt?_append hfree (Piece.tag?_placeholder key)]
    rfl
  refine ⟨_, _, hfound, fun row hscalar => ?_⟩
  have hrow : LoopBlock.expandRow ⟨key, join (puts fills (a ++ .placeholder key :: b))⟩ row =
      replaceFirst (braced key.toList) row.display.toList
        (join (puts fills (a ++ .placeholder key :: b))) := by
    cases row with
    | mapping fields => cases hscalar
    | sequence items => cases hscalar
    | _ => rfl
  rw [hrow, replaceFirst, hfound]
  simp

/-- The rows of its value take the place of a loop to which the loop pass comes. -/
theorem loops_block (h : Legible K) {data : Mapping} (hdata : Value.areCleanFields data = true)
    (hvalue : data.get? key = some value) (missing : MissingBlocks) {front : List Char}
    (ha : Contained .loop a) (hbody : ∀ q ∈ body, q.tag? ≠ some .eachClose)
    (hps : ∀ q ∈ a ++ .found (.eachOpen key) front ::
      (body ++ .found .eachClose eachCloseText :: b), K q) :
    Expansion.loops data missing (join (a ++ .found (.eachOpen key) front ::
        (body ++ .found .eachClose eachCloseText :: b))) =
      Expansion.loops data missing (join a) ++
        (value.rows.flatMap (LoopBlock.expandRow ⟨key, join body⟩) ++
          Expansion.loops data missing (join b)) := by
  have hopen : BlockKind.loop.opened? (.found (.eachOpen key) front) = some key := rfl
  have hrows : rows? data missing key body = some (value.rows.flatMap (Pieces.expandRow key body)) := by
    unfold rows?
    rw [hvalue]
  have hloops : loops data missing (a ++ .found (.eachOpen key) front ::
      (body ++ .found .eachClose eachCloseText :: b)) = loops data missing a ++
        (value.rows.flatMap (Pieces.expandRow key body) ++ loops data missing b) := by
    unfold loops
    rw [expand_append ha, expand_block hopen hbody rfl, hrows, Option.getD_some]
  have hjoin := (h.loops_join hdata missing hps).1
  rw [List.forall_mem_append, List.forall_mem_cons, List.forall_mem_append, List.forall_mem_cons] at hps
  obtain ⟨hfront, hp, hin, -, hbehind⟩ := hps
  have hkey := h.isPath_of_eachOpen hp
  have hclean : ∀ v ∈ value.rows, v.isClean = true := by
    intro v hv
    have hvalue' := (Value.areCleanFields_iff.1 hdata _ (Fields.mem_of_get? hvalue)).2
    exact Value.isClean_of_mem_rows hvalue' hv
  rw [hjoin, hloops, join_append, join_append, (h.loops_join hdata missing hfront).1,
    (h.loops_join hdata missing hbehind).1, (h.rows_join hkey hclean hin).1]

end Legible

/-- A clean template is rendered without placeholders. -/
theorem not_infix_render (missing : MissingBlocks) (htemplate : Template.isClean template = true)
    (hcontext : context.isClean = true) (hkey : isPath key.toList = true) :
    ¬ braced key.toList <:+: (render missing template context).toList := by
  have hlegible := Template.legible_of_isClean htemplate
  have hps := stock_pieces template.toList
  obtain ⟨-, hdrawn⟩ := expanded_eq_join hlegible hps (toList_eq_join template) missing hcontext
  have hcleared : ∀ q ∈ clear (Pieces.expanded missing context (recogniser.pieces template.toList)),
      Stock (recogniser.pieces template.toList) q := fun q hq => hdrawn q (List.mem_filter.1 hq).1
  rw [render_eq_join hlegible hps (toList_eq_join template) missing hcontext]
  rintro ⟨s, t, hjoin⟩
  rw [List.append_assoc] at hjoin
  obtain ⟨a, b, hpieces, -, -⟩ := hlegible.cut_of_braced hcleared hkey hjoin.symm
  have hleft : .placeholder key ∈
      clear (Pieces.expanded missing context (recogniser.pieces template.toList)) := by
    rw [hpieces]
    exact List.mem_append_right _ List.mem_cons_self
  exact absurd (List.mem_filter.1 hleft).2 (by simp [isPlaceholder, Piece.tag?_placeholder])

/-- A key to which nothing is offered is left to the loops over it. -/
theorem leftToLoops_of_scalarsOf (htemplate : Template.isClean template = true)
    (hcontext : context.isClean = true) (hsorted : context.IsSorted)
    (hmerged : context.merged.get? key = some value) (hscalars : context.scalarsOf key = []) :
    LeftToLoops missing template context key value := by
  have hlegible := Template.legible_of_isClean htemplate
  have hps := stock_pieces template.toList
  have hdata := Context.isClean_merged hcontext
  have hkey : isPath key.toList = true :=
    (Value.areCleanFields_iff.1 hdata _ (Fields.mem_of_get? hmerged)).1
  have hoffers : offers context.fills key = [] := by rw [offers_fills hsorted, hscalars]; rfl
  constructor
  · intro s parts ht hparts
    rw [toList_eq_join template] at ht ⊢
    obtain ⟨a, parts', rfl, ha, hputs, hfixed⟩ := hlegible.puts_weave hkey hparts hoffers hps ht
    have hfront : ∀ q ∈ a, Stock (recogniser.pieces template.toList) q := fun q hq => hps q (ha q hq)
    refine ⟨parts', ?_, hfixed⟩
    rw [(hlegible.fillAll_join hcontext hps).1, (hlegible.fillAll_join hcontext hfront).1,
      fillAll_eq_puts, fillAll_eq_puts, hputs]
  · intro s u text lexeme rest ht hloops hblock
    rw [toList_eq_join template] at ht ⊢
    obtain ⟨_, a, front, body, b, hloop, -, hcut, rfl, -, hbody⟩ :=
      (hlegible.inPlace hps).cut_of_block readsBlocks_loop ht hblock
    obtain ⟨rfl, rfl⟩ := LoopBlock.mk.inj hloop
    have hpieces : recogniser.pieces template.toList =
        a ++ .found (.eachOpen key) front :: (body ++ .found .eachClose eachCloseText :: b) := hcut
    rw [hpieces] at hps hlegible ⊢
    have hfront := (List.forall_mem_append.1 hps).1
    obtain ⟨hfill, hfilled⟩ := hlegible.fillAll_join hcontext hps
    have hfilla := (hlegible.fillAll_join hcontext hfront).1
    rw [fillAll_eq_puts] at hfill hfilled hfilla
    obtain ⟨inner, behind, hputs, hinner⟩ := puts_loop context.fills a body b key front
    rw [hputs] at hfill hfilled
    have hnone : offers inner key = [] := by rw [hinner, hoffers, List.drop_nil]
    -- the loop pass still comes to the loop
    have hcontained : Contained .loop (puts context.fills a) :=
      puts_keeps (contained_of_filled loop_closing_ne) _
        (hlegible.contained_of_closesLoops hfront hloops)
    have hbody' : ∀ q ∈ puts inner body, q.tag? ≠ some .eachClose := forall_mem_puts nofun hbody
    have hexpand := hlegible.loops_block hdata hmerged missing hcontained hbody' hfilled
    rw [List.forall_mem_append, List.forall_mem_cons, List.forall_mem_append, List.forall_mem_cons]
      at hps hfilled
    have hread := hlegible.read_block readsBlocks_loop hfilled.2.1 hfilled.2.2.1 hfilled.2.2.2.1
      hfilled.2.2.2.2 hbody'
    refine ⟨join (puts inner body), front ++ (join (puts inner body) ++ eachCloseText),
      join (puts behind b), ?_, ?_, ?_, ?_⟩
    · rw [hfill, hfilla]
      simp [Piece.text]
    · rw [join_append, join_cons] at hread
      simpa [Piece.text] using hread
    · rw [hfill, hfilla, hexpand]
    · intro x y hsplit
      exact hlegible.expandRow_puts hkey hnone hps.2.2.1 hfilled.2.2.1 hsplit
  · exact not_infix_render missing htemplate hcontext hkey

/-! ### The two views -/

/-- **Which scalar takes the first placeholder.** The last scalar that an entry binds the key to,
whatever the merged view binds the key to. Where this is a scalar it is the same one. Where it is a
sequence or a mapping, the key is left to the loops over it as long as no entry binds it to a scalar. -/
theorem scalars_agree_with_merged (missing : MissingBlocks)
    (htemplate : Template.isClean template = true) (hcontext : context.isClean = true)
    (hsorted : context.IsSorted)
    (hmerged : context.merged.get? key = some value) :
    (value.isScalar = true → FirstTakes template context key value) ∧
    (∀ last others, context.scalarsOf key = last :: others → FirstTakes template context key last) ∧
    (context.scalarsOf key = [] → LeftToLoops missing template context key value) := by
  have hdata := Context.isClean_merged hcontext
  have hkey : isPath key.toList = true :=
    (Value.areCleanFields_iff.1 hdata _ (Fields.mem_of_get? hmerged)).1
  have hlast : ∀ last others, context.scalarsOf key = last :: others →
      FirstTakes template context key last :=
    fun _ _ hscalars => firstTakes_of_scalarsOf htemplate hcontext hsorted hkey hscalars
  refine ⟨fun hscalar => ?_, hlast, leftToLoops_of_scalarsOf htemplate hcontext hsorted hmerged⟩
  obtain ⟨others, hscalars⟩ := scalarsOf_of_merged hsorted hmerged hscalar
  exact hlast value others hscalars

/-- A key with rows and another one with a scalar, from two entries. -/
theorem key_with_rows_is_left_to_loops :
    LeftToLoops .preserve
        "\x7b\x7b#each k\x7d\x7d<\x7b\x7bk\x7d\x7d>\x7b\x7b/each\x7d\x7d\x7b\x7bj\x7d\x7d"
        ⟨[[("j", .string "1")], [("k", .sequence [.string "a", .string "b"])]]⟩ "k"
        (.sequence [.string "a", .string "b"]) ∧
      FirstTakes
        "\x7b\x7b#each k\x7d\x7d<\x7b\x7bk\x7d\x7d>\x7b\x7b/each\x7d\x7d\x7b\x7bj\x7d\x7d"
        ⟨[[("j", .string "1")], [("k", .sequence [.string "a", .string "b"])]]⟩ "j" (.string "1") := by
  have htemplate : Template.isClean
      "\x7b\x7b#each k\x7d\x7d<\x7b\x7bk\x7d\x7d>\x7b\x7b/each\x7d\x7d\x7b\x7bj\x7d\x7d" = true := by
    decide +kernel
  have hcontext : (Context.mk [[("j", .string "1")],
      [("k", .sequence [.string "a", .string "b"])]]).isClean = true := by decide +kernel
  have hsorted : (Context.mk [[("j", .string "1")],
      [("k", .sequence [.string "a", .string "b"])]]).IsSorted := by decide +kernel
  constructor
  · exact (scalars_agree_with_merged .preserve htemplate hcontext hsorted rfl).2.2 rfl
  · exact (scalars_agree_with_merged .preserve htemplate hcontext hsorted rfl).1 rfl

/-- **A scalar that is overridden by a sequence** takes the first placeholder of its key, outside of a
loop over the key and in it. -/
theorem overridden_scalar_is_shown :
    (Context.mk [[("k", .string "old")], [("k", .sequence [.string "a"])]]).merged.get? "k" =
      some (.sequence [.string "a"]) ∧
    Placeholder.fillAll "[\x7b\x7bk\x7d\x7d]".toList
        ⟨[[("k", .string "old")], [("k", .sequence [.string "a"])]]⟩ = "[old]".toList ∧
    render .preserve "[\x7b\x7bk\x7d\x7d]"
        ⟨[[("k", .string "old")], [("k", .sequence [.string "a"])]]⟩ = "[old]" ∧
    render .preserve "\x7b\x7b#each k\x7d\x7d<\x7b\x7bk\x7d\x7d>\x7b\x7b/each\x7d\x7d"
        ⟨[[("k", .string "old")], [("k", .sequence [.string "a"])]]⟩ = "<old>" := by
  refine ⟨rfl, ?_, ?_, ?_⟩ <;> decide +kernel

end Stencil
