import Stencil.Proofs.Refinement

/-!
# What validation promises

Validation warns of every block that rendering will not resolve, as far as the tree of the template
shows it: a loop in a loop, a conditional in a conditional, a condition on a row. The passes do not see
the tree but search the text, so that the promise is kept where the pieces of the template are
legible, and only there can it be relied on. Validation itself does not look at the braces in plain
text and in operands, on which this depends.

* `areApart_of_warnings`: a template without warnings has no block in another of its kind.
* `no_tag_left_of_validated`: a legible template without warnings is rendered without a tag.
* `tag_left_of_validated`: a template without warnings of which tags are left.
-/

namespace Stencil

open Text Tag Pieces

variable {K : Piece Tag → Prop} {ps : Pieces} {nodes : List Node} {template : String}

/-! ### Warnings -/

theorem isApart_of_warning? {site : Site} (h : site.warning? = none) : site.isApart = true := by
  cases site with
  | placeholder path => rfl
  | loop key offset around =>
    rw [Site.warning?, Option.map_eq_none_iff, List.findSome?_eq_none_iff] at h
    -- a loop in a loop would be reported with the outer one
    have hany : around.any (·.loopKey?.isSome) = false := by
      refine List.any_eq_false.2 fun e he => ?_
      rw [h e he]
      exact nofun
    rw [Site.isApart, hany]
    rfl
  | conditional c offset around =>
    rw [Site.warning?] at h
    by_cases hany : around.any Enclosing.isConditional = true
    · rw [if_pos hany] at h
      cases h
    · rw [Site.isApart, Bool.eq_false_iff.2 hany]
      rfl

/-- A template without warnings has no loop in a loop and no conditional in a conditional. -/
theorem areApart_of_warnings (h : (Outline.ofNodes nodes).warnings = []) :
    Node.areApart nodes = true := by
  refine List.all_eq_true.2 fun site hsite => isApart_of_warning? ?_
  exact List.filterMap_eq_nil_iff.1 h site hsite

theorem Fields.isSome_get?_merge {α : Type} {pairs m : Fields α} {key : String}
    (h : (m.get? key).isSome = true ∨ key ∈ pairs.map Prod.fst) :
    ((m.merge pairs).get? key).isSome = true := by
  induction pairs generalizing m with
  | nil => exact h.resolve_right List.not_mem_nil
  | cons p pairs ih =>
    refine ih ?_
    rw [get?_insert]
    by_cases hkey : key = p.1
    · rw [if_pos hkey]
      exact .inl rfl
    · rw [if_neg hkey]
      refine h.imp_right fun hm => ?_
      exact (List.mem_cons.1 hm).resolve_left hkey

theorem mem_names {name : String} {ns : List String} (h : name ∈ ns) : name ∈ Outline.names ns := by
  have hkey : name ∈ (ns.map (·, ())).map Prod.fst := by
    rw [List.map_map]
    exact List.mem_map.2 ⟨name, h, rfl⟩
  exact Fields.mem_keys_iff.2 (Fields.isSome_get?_merge (m := []) (.inr hkey))

/-- The outline lists every key that a template loops over. -/
theorem mem_loops_of_mem_loopKeys {key : String} (h : key ∈ Node.loopKeys nodes) :
    key ∈ (Outline.ofNodes nodes).loops := mem_names h

/-- A template within the size limit has the outline of its tree. -/
theorem outline_eq_ok {r : Renderer} {outline : Outline} : r.outline template = .ok outline ↔
    (∀ limit ∈ r.limit, template.utf8ByteSize ≤ limit) ∧
      ∃ nodes, Node.ofSource template = .ok nodes ∧ outline = .ofNodes nodes := by
  have hsize : r.checkSize template = .ok () ↔ ∀ limit ∈ r.limit, template.utf8ByteSize ≤ limit := by
    unfold Renderer.checkSize
    cases r.limit with
    | none => simp
    | some limit =>
      by_cases hlimit : limit < template.utf8ByteSize
      · simp [hlimit]
      · simp [hlimit, Nat.le_of_not_lt hlimit]
  rw [← hsize]
  unfold Renderer.outline
  cases r.checkSize template with
  | error fault => exact ⟨nofun, nofun⟩
  | ok _ =>
    cases Node.ofSource template with
    | error fault => exact ⟨nofun, nofun⟩
    | ok nodes =>
      constructor
      · intro h
        exact ⟨rfl, nodes, rfl, (Except.ok.inj h).symm⟩
      · rintro ⟨-, nodes', hnodes, rfl⟩
        rw [Except.ok.inj hnodes]
        rfl

/-- A small template is validated by the tree of its tokens. -/
theorem outline_of_tokens {tokens : List Token}
    (hsize : template.utf8ByteSize ≤ Renderer.defaultLimit) (htokens : Token.ofSource template = tokens)
    (hnodes : Node.ofTokens tokens = .ok nodes) :
    Renderer.default.outline template = .ok (.ofNodes nodes) := by
  refine outline_eq_ok.2 ⟨?_, nodes, ofSource_eq_ok.2 (htokens ▸ hnodes), rfl⟩
  rintro limit ⟨⟩
  exact hsize

/-! ### Plain pieces -/

/-- Plain pieces that are legible make up a text without tags. -/
theorem Legible.silent_join (h : Legible K) (hps : ∀ q ∈ ps, K q) (hplain : ∀ q ∈ ps, q.tag? = none) :
    Silent recogniser.read (join ps) [] := by
  induction ps with
  | nil => exact silent_nil _ _
  | cons p ps ih =>
    rw [List.forall_mem_cons] at hps hplain
    rw [join_cons]
    refine Silent.append ?_ (ih hps.2 hplain.2)
    cases p with
    | plain text =>
      rw [List.append_nil]
      exact h.silent hps.1 hps.2
    | found tag lexeme => exact absurd hplain.1 nofun

theorem plain_of_silent {s : String} (h : Silent recogniser.read s.toList []) {token : Token}
    (htoken : token ∈ Token.ofSource s) : ∃ text, token.lexeme = .plain text := by
  obtain ⟨p, hp, he⟩ := exists_piece_of_mem htoken
  rw [Recogniser.pieces_of_silent h] at hp
  unfold Piece.ofSeen at hp
  split at hp
  · exact absurd hp List.not_mem_nil
  · rw [List.mem_singleton.1 hp] at he
    exact ⟨_, he.symm⟩

/-! ### The promise -/

/-- **Validated templates are resolved.** A template that is validated without a warning, and whose
pieces are legible, is rendered without any tag, in every clean context that binds its loops and
under either policy. -/
theorem no_tag_left_of_validated {r : Renderer} {template : String} {outline : Outline}
    {context : Context} (missing : MissingBlocks) (houtline : r.outline template = .ok outline)
    (hwarnings : outline.warnings = [])
    (hlegible : Legible (Stock (recogniser.pieces template.toList)))
    (hcontext : context.isClean = true)
    (hbound : ∀ key ∈ outline.loops, (context.merged.get? key).isSome = true) :
    ∀ token ∈ Token.ofSource (render missing template context), ∃ text, token.lexeme = .plain text := by
  obtain ⟨-, nodes, hnodes, rfl⟩ := outline_eq_ok.1 houtline
  have hpieces : ∀ q ∈ recogniser.pieces template.toList,
      Stock (recogniser.pieces template.toList) q := fun _ hq => .inl hq
  have hrender := render_eq_join hlegible hpieces (toList_eq_join template) missing hcontext
  obtain ⟨-, hdrawn⟩ := expanded_eq_join hlegible hpieces (toList_eq_join template) missing hcontext
  have hresolvable : Resolvable (fun key => missing = .remove ∨ (context.merged.get? key).isSome)
      false false nodes := by
    refine resolvable_of_areApart (areApart_of_warnings hwarnings) fun key hkey => ?_
    exact .inr (hbound key (mem_loops_of_mem_loopKeys hkey))
  obtain ⟨-, hplain⟩ := clear_expanded_of_spell (spells_pieces hnodes) hresolvable
  -- what is left are plain pieces, and such pieces make no tag together
  intro token htoken
  refine plain_of_silent ?_ htoken
  rw [hrender]
  exact hlegible.silent_join (fun q hq => hdrawn q (List.mem_filter.1 hq).1) hplain

/-- Single braces in plain text do no harm. -/
theorem no_tag_left_of_single_braces :
    Legible (Stock (recogniser.pieces
      "\x7ba\x7d \x7b\x7b#each xs\x7d\x7d\x7b \x7b\x7bxs\x7d\x7d \x7d\x7b\x7b/each\x7d\x7d".toList)) ∧
    ∀ token ∈ Token.ofSource (render .preserve
        "\x7ba\x7d \x7b\x7b#each xs\x7d\x7d\x7b \x7b\x7bxs\x7d\x7d \x7d\x7b\x7b/each\x7d\x7d"
        (.single [("xs", .sequence [.string "1", .null])])), ∃ text, token.lexeme = .plain text := by
  have hlegible : Legible (Stock (recogniser.pieces
      "\x7ba\x7d \x7b\x7b#each xs\x7d\x7d\x7b \x7b\x7bxs\x7d\x7d \x7d\x7b\x7b/each\x7d\x7d".toList)) :=
    legible_of_settled (genuine_pieces _) (List.all_eq_true.1 (by decide +kernel))
  have htokens : Token.ofSource
      "\x7ba\x7d \x7b\x7b#each xs\x7d\x7d\x7b \x7b\x7bxs\x7d\x7d \x7d\x7b\x7b/each\x7d\x7d" =
      [⟨.plain "\x7ba\x7d ", 0, 4⟩, ⟨.tag (.eachOpen "xs"), 4, 16⟩, ⟨.plain "\x7b ", 16, 18⟩,
        ⟨.tag (.placeholder "xs"), 18, 24⟩, ⟨.plain " \x7d", 24, 26⟩, ⟨.tag .eachClose, 26, 35⟩] := by
    decide +kernel
  have houtline := outline_of_tokens (by decide +kernel) htokens rfl
  refine ⟨hlegible, ?_⟩
  refine no_tag_left_of_validated .preserve houtline (by decide +kernel) hlegible (by decide +kernel) ?_
  show ∀ key ∈ ["xs"], _
  exact List.forall_mem_singleton.2 (by decide +kernel)

/-- The template is validated without a warning, and yet a tag is left of it in a clean context that
binds its loops. -/
def LeavesTag (template : String) (context : Context) : Prop :=
  (∃ outline, Renderer.default.outline template = .ok outline ∧ outline.warnings = [] ∧
    ∀ key ∈ outline.loops, (context.merged.get? key).isSome = true) ∧
  context.isClean = true ∧
  (Token.ofSource (render .preserve template context)).any (·.lexeme = .tag .eachClose) = true

/-- Tags are left of a template whose operand holds what the search takes for a closing tag, and of one
where braces come to stand together around a placeholder that is cleared. Neither has a warning. -/
theorem tag_left_of_validated :
    LeavesTag ("\x7b\x7b#each xs\x7d\x7d\x7b\x7b#if a != \x7b\x7b/each\x7d\x7d" ++
        "yes\x7b\x7b/if\x7d\x7d\x7b\x7b/each\x7d\x7d")
        (.single [("a", .string "1"), ("xs", .sequence [.string "1"])]) ∧
      LeavesTag "\x7b\x7b\x7bx\x7d\x7d\x7b/each\x7d\x7d" (.single []) := by
  constructor
  · -- the loop pass takes the tag in the operand for the end of the loop
    have htokens : Token.ofSource ("\x7b\x7b#each xs\x7d\x7d\x7b\x7b#if a != \x7b\x7b/each\x7d\x7d" ++
          "yes\x7b\x7b/if\x7d\x7d\x7b\x7b/each\x7d\x7d") =
        [⟨.tag (.eachOpen "xs"), 0, 12⟩,
          ⟨.tag (.ifOpen ⟨"a", some ⟨.notEqual, "\x7b\x7b/each"⟩⟩), 12, 32⟩, ⟨.plain "yes", 32, 35⟩,
          ⟨.tag .ifClose, 35, 42⟩, ⟨.tag .eachClose, 42, 51⟩] := by decide +kernel
    refine ⟨⟨_, outline_of_tokens (by decide +kernel) htokens rfl, by decide +kernel, ?_⟩, ?_, ?_⟩
    · show ∀ key ∈ ["xs"], _
      exact List.forall_mem_singleton.2 (by decide +kernel)
    · decide +kernel
    · decide +kernel
  · have htokens : Token.ofSource "\x7b\x7b\x7bx\x7d\x7d\x7b/each\x7d\x7d" =
        [⟨.plain "\x7b", 0, 1⟩, ⟨.tag (.placeholder "x"), 1, 6⟩,
          ⟨.plain "\x7b/each\x7d\x7d", 6, 14⟩] := by decide +kernel
    refine ⟨⟨_, outline_of_tokens (by decide +kernel) htokens rfl, by decide +kernel, ?_⟩, ?_, ?_⟩
    · show ∀ key ∈ [], _
      exact nofun
    · decide +kernel
    · decide +kernel

end Stencil
