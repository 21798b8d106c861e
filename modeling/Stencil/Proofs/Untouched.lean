import Stencil.Proofs.Branches

/-!
# What data leaves alone

A scalar is put in place of the text that is its key between braces, whatever the key may be, while the
grammar of placeholders only knows paths. Where the key is a path the two are the same thing: nothing
but placeholders is filled. A key that is no path fills what is plain text or a block tag to everyone
else.

* `fillOne_eq_self_iff`: which scalars leave all texts without placeholders alone.
* `fill_weave`: the tags in which no placeholder stands are kept, in number and order, whatever stands
  around them and whatever is filled in.
* `data_fills_only_placeholders`: what scalars with a path as their key leave alone.
* `key_fills_plain_text`: what others fill.
-/

namespace Stencil

open Text Tag

namespace Placeholder

variable {row : Option String} {key path : String} {value : Value} {record : Mapping}
  {s t u f needle replacement : List Char} {tag : Tag}

/-! ### Texts without placeholders -/

/-- A placeholder in a text is one in every text around it. -/
theorem Occurs.mono (h : Occurs s) (ht : s <:+: t) : Occurs t := by
  obtain ⟨a, path, b, hpath, rfl⟩ := h
  obtain ⟨x, y, rfl⟩ := ht
  exact ⟨x ++ a, path, b ++ y, hpath, by simp⟩

/-- No placeholder is found in a text exactly where none stands in it. -/
theorem findAll_eq_nil_iff_not_occurs : placeholderPath.findAll s = [] ↔ ¬ Occurs s := by
  rw [Recogniser.findAll_eq_nil_iff]
  refine ⟨?_, silent_of_not_occurs⟩
  rintro h ⟨a, path, b, hpath, rfl⟩
  have hne : braced path ++ b ≠ [] := List.append_ne_nil_of_left_ne_nil (braced_ne_nil path) b
  have hsuffix : braced path ++ b <:+ a ++ braced path ++ b := ⟨a, by simp⟩
  have hnone := h _ hne hsuffix
  rw [List.append_assoc, read_braced hpath] at hnone
  cases hnone

/-- What is looked for is a placeholder itself. -/
theorem occurs_lexeme (h : isPath (Placeholder.path row key).toList = true) : Occurs (lexeme row key) := by
  rw [lexeme_eq_braced]
  exact ⟨[], _, [], h, by simp⟩

theorem lexeme_ne_nil (row : Option String) (key : String) : lexeme row key ≠ [] := by
  rw [lexeme_eq_braced]
  exact braced_ne_nil _

/-- The needle by itself is replaced. -/
theorem replaceFirst_needle (hn : needle ≠ []) (replacement : List Char) :
    replaceFirst needle replacement needle = replacement := by
  have hsplit : split? needle [] needle = some ([], []) := by
    apply split?_of_after? hn
    simpa using after?_append needle []
  simp [replaceFirst, hsplit]

/-- A text is not changed where the needle is replaced by itself. -/
theorem replaceFirst_self (needle s : List Char) : replaceFirst needle needle s = s := by
  unfold replaceFirst
  cases hsplit : split? needle [] s with
  | none => rfl
  | some x => exact (split?_append hsplit).symm

/-- A text without placeholders is not filled. -/
theorem fillOne_of_not_occurs (ht : ¬ Occurs t)
    (hlexeme : value.isScalar = true → Occurs (lexeme row key)) : fillOne row t key value = t := by
  unfold fillOne
  by_cases hscalar : value.isScalar = true
  · rw [if_pos hscalar]
    apply replaceFirst_of_not_infix
    exact fun hin => ht ((hlexeme hscalar).mono hin)
  · rw [if_neg hscalar]

/-- **Which scalars leave plain text alone**: those whose key makes a text in which a placeholder stands,
and those that are written as that text themselves. -/
theorem fillOne_eq_self_iff : (∀ t, placeholderPath.findAll t = [] → fillOne row t key value = t) ↔
    value.isScalar = true → Occurs (lexeme row key) ∨ value.display.toList = lexeme row key := by
  constructor
  · intro h hscalar
    by_cases hoccurs : Occurs (lexeme row key)
    · exact .inl hoccurs
    · have hself := h _ (findAll_eq_nil_iff_not_occurs.2 hoccurs)
      rw [fillOne, if_pos hscalar, replaceFirst_needle (lexeme_ne_nil row key)] at hself
      exact .inr hself
  · intro h t ht
    rw [findAll_eq_nil_iff_not_occurs] at ht
    by_cases hscalar : value.isScalar = true
    · rcases h hscalar with hoccurs | hself
      · exact fillOne_of_not_occurs ht fun _ => hoccurs
      · rw [fillOne, if_pos hscalar, hself, replaceFirst_self]
    · exact fillOne_of_not_occurs ht fun hs => absurd hs hscalar

/-- A text without placeholders is not filled from a record. -/
theorem fill_of_not_occurs (ht : ¬ Occurs t)
    (hrecord : ∀ entry ∈ record, entry.2.isScalar = true → Occurs (lexeme row entry.1)) :
    fill row t record = t := by
  induction record with
  | nil => rfl
  | cons entry record ih =>
    rw [List.forall_mem_cons] at hrecord
    have hone : fillOne row t entry.1 entry.2 = t := fillOne_of_not_occurs ht hrecord.1
    rw [fill, List.foldl_cons, hone]
    exact ih hrecord.2

/-! ### Tags among other text -/

/-- A text that no fill of a path touches, whatever stands around it. -/
structure Withstands (path : String) (f : List Char) : Prop where
  begins : ∃ w, f = opening ++ w
  silent : ∀ t, Silent (after? (braced path.toList)) f t

/-- A placeholder does not reach over two opening braces. -/
theorem apart_of_begins (hpath : isPath path.toList = true) (s : List Char) (hf : ∃ w, f = opening ++ w)
    (t : List Char) : Apart (Reader.exactly (braced path.toList)) s (f ++ t) := by
  intro u hu _
  obtain ⟨w, rfl⟩ := hf
  simp only [Reader.exactly, Option.map_map]
  cases hnear : after? (braced path.toList) u with
  | some rest =>
    obtain rfl := after?_eq_some_iff.1 hnear
    rw [List.append_assoc, after?_append]
    rfl
  | none =>
    cases hfar : after? (braced path.toList) (u ++ (opening ++ w ++ t)) with
    | none => rfl
    | some rest =>
      have hread : u ++ '{' :: '{' :: (w ++ t) = braced path.toList ++ rest := by
        simpa [opening] using after?_eq_some_iff.1 hfar
      obtain ⟨b, rfl⟩ := braced_of_append hpath hread hu
      rw [after?_append] at hnear
      cases hnear

/-- A tag in which no placeholder stands withstands every fill. -/
theorem withstands_of_read {rest : List Char} (hpath : isPath path.toList = true)
    (hread : recogniser.read s = some (tag, f, rest)) (hf : ¬ Occurs f) : Withstands path f where
  begins := recogniser_begins hread
  silent := by
    intro t u hu hsuffix
    cases hfound : after? (braced path.toList) (u ++ t) with
    | none => rfl
    | some y =>
      have he := after?_eq_some_iff.1 hfound
      obtain ⟨inner, rfl, hinner⟩ := closing_recogniser.closed hread
      obtain ⟨x, hx⟩ := hsuffix
      -- what is found ends at the first closing braces, as the tag does
      rcases List.append_eq_append_iff.1 hx with ⟨w, hw, hu'⟩ | ⟨w, -, hclosing⟩
      · have hclosed : '}' ∉ w := fun hm => hinner (by simp [hw, hm])
        have hpath' : '}' ∉ opening ++ path.toList := by
          simp [opening, closing_not_mem_of_isPath hpath]
        have hwhole : w ++ closing ++ t = opening ++ path.toList ++ closing ++ y := by
          rw [← hu', he, braced]
        obtain rfl := Closing.inner_unique hclosed hpath' hwhole
        exact absurd ⟨x, path.toList, [], hpath, by rw [hw]; simp [braced]⟩ hf
      · -- a placeholder does not begin with a closing brace
        obtain ⟨c, u, rfl⟩ := List.exists_cons_of_ne_nil hu
        have hc : c ∈ closing := by simp [hclosing]
        have hopen : c = '{' := (List.cons.inj he).1
        rw [hopen] at hc
        exact absurd hc (by decide)

/-- A block tag has no placeholder in it if its operand has no opening brace. -/
theorem not_occurs_of_plainOperand {rest : List Char} (hread : recogniser.read s = some (tag, f, rest))
    (htag : ∀ path, tag ≠ .placeholder path) (hplain : tag.plainOperand = true) : ¬ Occurs f := by
  rintro ⟨a, path, b, hpath, rfl⟩
  have hs := recogniser.faithful hread
  cases a with
  | nil =>
    -- a placeholder at the front would be the tag
    have hplaceholder := placeholderPath_read_iff.1 (read_braced hpath (b ++ rest))
    rw [hs, List.nil_append, List.append_assoc, hplaceholder] at hread
    exact htag _ (congrArg Prod.fst (Option.some.inj hread)).symm
  | cons c a =>
    have hsettled := settled_tail_of_read hread (not_infix_of_plainOperand hplain)
    have hsilent := silent_of_settled hsettled []
    have hnone := hsilent (braced path ++ b) (by simp [braced, opening]) ⟨a, by simp⟩
    have hplaceholder := placeholderPath_read_iff.1 (read_braced hpath b)
    rw [List.append_nil, hplaceholder] at hnone
    cases hnone

/-- Texts with fixed texts between them. -/
def weave (s : List Char) : List (List Char × List Char) → List Char
  | [] => s
  | (f, t) :: parts => s ++ (f ++ weave t parts)

/-- **Fixed texts that withstand a fill stay**, in the same order, whatever becomes of what is between
them. -/
theorem replaceFirst_weave {parts : List (List Char × List Char)} (hpath : isPath path.toList = true)
    (hparts : ∀ f ∈ parts.map Prod.fst, Withstands path f) (s : List Char) :
    ∃ s' parts', replaceFirst (braced path.toList) replacement (weave s parts) = weave s' parts' ∧
      parts'.map Prod.fst = parts.map Prod.fst := by
  induction parts generalizing s with
  | nil => exact ⟨_, [], rfl, rfl⟩
  | cons part parts ih =>
    obtain ⟨f, t⟩ := part
    rw [List.map_cons, List.forall_mem_cons] at hparts
    obtain ⟨hf, hparts⟩ := hparts
    have hapart := apart_of_begins hpath s hf.begins (weave t parts)
    have hsplit := split?_append_of_apart (braced_ne_nil _) hapart
    rw [split?_append_of_silent (hf.silent _), Option.map_map] at hsplit
    rw [weave]
    cases hin : split? (braced path.toList) [] s with
    | some x =>
      obtain ⟨a, b⟩ := x
      refine ⟨a ++ replacement ++ b, (f, t) :: parts, ?_, rfl⟩
      rw [replaceFirst, hsplit, hin, weave]
      simp
    | none =>
      -- nothing is found in front of the fixed text, so that it is found behind it
      obtain ⟨t', parts', he, hfixed⟩ := ih hparts t
      refine ⟨s, (f, t') :: parts', ?_, by rw [List.map_cons, hfixed, List.map_cons]⟩
      rw [replaceFirst, hsplit, hin, weave, ← he, replaceFirst]
      cases split? (braced path.toList) [] (weave t parts) <;> simp

/-- **Fixed texts are kept by filling**, in number and order, whatever stands around them. -/
theorem fill_weave {parts : List (List Char × List Char)}
    (hrecord : ∀ entry ∈ record, entry.2.isScalar = true →
      isPath (Placeholder.path row entry.1).toList = true ∧
        ∀ f ∈ parts.map Prod.fst, Withstands (Placeholder.path row entry.1) f) (s : List Char) :
    ∃ s' parts', fill row (weave s parts) record = weave s' parts' ∧
      parts'.map Prod.fst = parts.map Prod.fst := by
  induction record generalizing s parts with
  | nil => exact ⟨s, parts, rfl, rfl⟩
  | cons entry record ih =>
    rw [List.forall_mem_cons] at hrecord
    obtain ⟨hentry, hrecord⟩ := hrecord
    rw [fill, List.foldl_cons, fillOne]
    by_cases hscalar : entry.2.isScalar = true
    · obtain ⟨hpath, hparts⟩ := hentry hscalar
      obtain ⟨s', parts', he, hfixed⟩ := replaceFirst_weave hpath hparts s
      rw [if_pos hscalar, lexeme_eq_braced, he, ← hfixed]
      exact ih (by rw [hfixed]; exact hrecord) s'
    · rw [if_neg hscalar]
      exact ih hrecord s

end Placeholder

/-! ### Plain templates -/

open Placeholder

variable {template : String} {context : Context}

/-- A template that is plain text has no tag anywhere. -/
theorem silent_of_plain (h : ∀ token ∈ Token.ofSource template, ∃ text, token.lexeme = .plain text) :
    Silent recogniser.read template.toList [] := by
  have hpieces : ∀ tag front, .found tag front ∉ recogniser.pieces template.toList := by
    intro tag front hmem
    obtain ⟨token, htoken, he⟩ := exists_token_of_mem hmem
    obtain ⟨text, htext⟩ := h token htoken
    rw [he] at htext
    cases htext
  exact (recogniser.cut_pieces _).silent hpieces

/-- A scan for tags of some kind leaves a text without tags alone. -/
theorem replace_of_silent {α : Type} {r : Recogniser α} {is : Tag → Prop} {s : List Char}
    (f : α → List Char → List Char) (hr : Anchored r.read is) (h : Silent recogniser.read s []) :
    r.replace f s = s := by
  have hreplace := Recogniser.replace_append_of_silent f (hr.silent h)
  rw [List.append_nil, Recogniser.replace_nil, List.append_nil] at hreplace
  exact hreplace

/-- A text without placeholders is not filled from a context. -/
theorem fillAll_of_not_occurs {t : List Char} (ht : ¬ Occurs t)
    (hcontext : ∀ m ∈ context.entries, ∀ entry ∈ m, entry.2.isScalar = true →
      Occurs (lexeme none entry.1)) : fillAll t context = t := by
  have hentries : ∀ m ∈ context.entries.reverse, ∀ entry ∈ m, entry.2.isScalar = true →
      Occurs (lexeme none entry.1) := fun m hm => hcontext m (List.mem_reverse.1 hm)
  unfold fillAll
  generalize context.entries.reverse = entries at hentries
  induction entries with
  | nil => rfl
  | cons m entries ih =>
    rw [List.forall_mem_cons] at hentries
    rw [List.foldl_cons, fill_of_not_occurs ht hentries.1]
    exact ih hentries.2

/-- A template that is plain text is rendered as it is. -/
theorem render_of_plain (missing : MissingBlocks)
    (htemplate : ∀ token ∈ Token.ofSource template, ∃ text, token.lexeme = .plain text)
    (hcontext : ∀ m ∈ context.entries, ∀ entry ∈ m, entry.2.isScalar = true →
      Occurs (lexeme none entry.1)) : render missing template context = template := by
  have hsilent := silent_of_plain htemplate
  have hclear : clear template.toList = template.toList :=
    replace_of_silent _ anchored_placeholderPath hsilent
  have hfill := fillAll_of_not_occurs ((clear_eq_self_iff _).1 hclear) hcontext
  have hloops : Expansion.loops context.merged missing template.toList = template.toList :=
    replace_of_silent _ readsBlocks_loop.anchored hsilent
  have hconditionals : Expansion.conditionals context.merged template.toList = template.toList :=
    replace_of_silent _ readsBlocks_conditional.anchored hsilent
  rw [render_eq_clear, expanded, hfill, hloops, hconditionals, hclear, String.ofList_toList]

/-! ### The promise -/

/-- A tag, in which no placeholder stands. -/
def IsFirmTag (f : List Char) : Prop :=
  (∃ tag s rest, recogniser.read s = some (tag, f, rest)) ∧ placeholderPath.findAll f = []

/-- A tag other than a placeholder is firm if its operand is plain. -/
theorem isFirmTag_of_plainOperand {tag : Tag} {s f rest : List Char}
    (hread : recogniser.read s = some (tag, f, rest)) (htag : ∀ path, tag ≠ .placeholder path)
    (hplain : tag.plainOperand = true) : IsFirmTag f :=
  ⟨⟨tag, s, rest, hread⟩, findAll_eq_nil_iff_not_occurs.2 (not_occurs_of_plainOperand hread htag hplain)⟩

/-- **Data fills nothing but placeholders** as far as the keys of its scalars are paths. Then texts in
which no placeholder is found are left alone, tags in which none is found are kept wherever they stand,
and plain templates are rendered as they are, whatever the values are. -/
theorem data_fills_only_placeholders {row : Option String} {record : Mapping}
    (hrecord : ∀ entry ∈ record, entry.2.isScalar = true →
      isPath (Placeholder.path row entry.1).toList = true) :
    (∀ t, placeholderPath.findAll t = [] → fill row t record = t) ∧
    (∀ s parts, (∀ f ∈ parts.map Prod.fst, IsFirmTag f) →
      ∃ s' parts', fill row (weave s parts) record = weave s' parts' ∧
        parts'.map Prod.fst = parts.map Prod.fst) ∧
    (∀ missing template context,
      (∀ token ∈ Token.ofSource template, ∃ text, token.lexeme = .plain text) →
      (∀ m ∈ context.entries, ∀ entry ∈ m, entry.2.isScalar = true → isPath entry.1.toList = true) →
      render missing template context = template) := by
  refine ⟨?_, ?_, ?_⟩
  · intro t ht
    rw [findAll_eq_nil_iff_not_occurs] at ht
    exact fill_of_not_occurs ht fun entry hentry hscalar => occurs_lexeme (hrecord entry hentry hscalar)
  · intro s parts hparts
    refine fill_weave (fun entry hentry hscalar => ?_) s
    have hpath := hrecord entry hentry hscalar
    refine ⟨hpath, fun f hf => ?_⟩
    obtain ⟨⟨tag, s, rest, hread⟩, hnone⟩ := hparts f hf
    exact withstands_of_read hpath hread (findAll_eq_nil_iff_not_occurs.1 hnone)
  · intro missing template context htemplate hcontext
    refine render_of_plain missing htemplate fun m hm entry hentry hscalar => ?_
    have hpath : isPath (Placeholder.path none entry.1).toList = true :=
      hcontext m hm entry hentry hscalar
    exact occurs_lexeme hpath

/-- A field of the rows of a loop, of which the value is itself a tag. -/
theorem row_field_fills_only_placeholders :
    fill (some "xs") "\x7b\x7b#if a\x7d\x7d\x7b\x7b xs.a \x7d\x7d".toList
        [("a", .string "\x7b\x7b/if\x7d\x7d")] =
      "\x7b\x7b#if a\x7d\x7d\x7b\x7b xs.a \x7d\x7d".toList ∧
    (∃ s' parts', fill (some "xs") (weave "\x7b\x7bxs.a\x7d\x7d".toList
          [(ifCloseText, "\x7b\x7bxs.a\x7d\x7d".toList)]) [("a", .string "\x7b\x7b/if\x7d\x7d")] =
        weave s' parts' ∧ parts'.map Prod.fst = [ifCloseText]) ∧
    render .preserve "\x7b\x7b a \x7d\x7d" (.single [("a", .string "1")]) = "\x7b\x7b a \x7d\x7d" := by
  have hrecord : ∀ entry ∈ [("a", Value.string "\x7b\x7b/if\x7d\x7d")], entry.2.isScalar = true →
      isPath (Placeholder.path (some "xs") entry.1).toList = true :=
    List.forall_mem_singleton.2 fun _ => by decide +kernel
  obtain ⟨hself, hkept, hrender⟩ := data_fills_only_placeholders hrecord
  refine ⟨hself _ (by decide +kernel), hkept _ _ ?_, hrender _ _ _ ?_ ?_⟩
  · have hsign : recogniser.read ifCloseText = some (.ifClose, ifCloseText, []) :=
      sign_ifClose.2 ⟨rfl, (List.append_nil _).symm⟩
    exact List.forall_mem_singleton.2 (isFirmTag_of_plainOperand hsign nofun rfl)
  · have htokens : Token.ofSource "\x7b\x7b a \x7d\x7d" = [⟨.plain "\x7b\x7b a \x7d\x7d", 0, 7⟩] := by
      decide +kernel
    rw [htokens]
    exact List.forall_mem_singleton.2 ⟨_, rfl⟩
  · exact List.forall_mem_singleton.2 (List.forall_mem_singleton.2 fun _ => by decide +kernel)

/-- **What other keys fill**: braced text that is no tag, a block tag, and even with a path as the key a
placeholder in the operand of a tag. -/
theorem key_fills_plain_text :
    (placeholderPath.findAll "\x7b\x7b a \x7d\x7d".toList = [] ∧
      fill none "\x7b\x7b a \x7d\x7d".toList [(" a ", .string "1")] ≠ "\x7b\x7b a \x7d\x7d".toList) ∧
    (placeholderPath.findAll otherwiseText = [] ∧
      fill none otherwiseText [("#else", .string "1")] ≠ otherwiseText) ∧
    (Token.ofSource "\x7b\x7b a \x7d\x7d" = [⟨.plain "\x7b\x7b a \x7d\x7d", 0, 7⟩] ∧
      render .preserve "\x7b\x7b a \x7d\x7d" (.single [(" a ", .string "1")]) = "1") ∧
    (Token.ofSource "\x7b\x7b#if a == \x7b\x7bb\x7d\x7d" =
        [⟨.tag (.ifOpen ⟨"a", some ⟨.equal, "\x7b\x7bb"⟩⟩), 0, 16⟩] ∧
      fill none "\x7b\x7b#if a == \x7b\x7bb\x7d\x7d".toList [("b", .string "1")] =
        "\x7b\x7b#if a == 1".toList) := by
  refine ⟨⟨?_, ?_⟩, ⟨?_, ?_⟩, ⟨?_, ?_⟩, ?_, ?_⟩ <;> decide +kernel

end Stencil
