import Mathlib
import Stencil.Proofs.Fills

/-!
# How far a text can grow

The text of a value may hold the placeholder of its own key, or that of a key which is filled after it,
and so what has just been written may be written over again. Whatever the texts are, this ends: each
scalar is written once at most, and over one placeholder. A text therefore grows by no more than the
scalars that go into it, and a loop comes to no more than its body and the scalars of the row for each
of its rows.

* `landed`: the fills that find a placeholder, none of which counts twice.
* `size_write`: the account of some fills, of what is written and of what is written over.
* `Recogniser.size_replace_le`: a scan adds what its replacements add.
* `growth_le`: bounds for filled texts and expanded loops.
* `size_render_le`: a bound for whole renderings.
-/

namespace Stencil

open Text

variable {s : List Char}

/-! ### Fills -/

/-- The size of the texts of some fills. -/
def textsSize (fills : List (String × String)) : Nat := (fills.map fun fill => size fill.2.toList).sum

/-- The size of the placeholders of some fills. -/
def placeholdersSize (row : Option String) (fills : List (String × String)) : Nat :=
  (fills.map fun fill => size (Placeholder.lexeme row fill.1)).sum

/-- The text after some fills, each of which goes into its first placeholder. -/
def write (row : Option String) (fills : List (String × String)) (text : List Char) : List Char :=
  fills.foldl (fun text fill => replaceFirst (Placeholder.lexeme row fill.1) fill.2.toList text) text

/-- The fills that find a placeholder when it is their turn. -/
def landed (row : Option String) : List (String × String) → List Char → List (String × String)
  | [], _ => []
  | fill :: fills, text =>
    if Placeholder.lexeme row fill.1 <:+: text then
      fill :: landed row fills (replaceFirst (Placeholder.lexeme row fill.1) fill.2.toList text)
    else landed row fills text

theorem textsSize_append (fills fills' : List (String × String)) :
    textsSize (fills ++ fills') = textsSize fills + textsSize fills' := by
  rw [textsSize, List.map_append, List.sum_append]
  rfl

theorem isSome_split? {needle s : List Char} (h : needle <:+: s) :
    (split? needle [] s).isSome = true := by
  obtain ⟨a, b, rfl⟩ := h
  rw [List.append_assoc]
  induction a with
  | nil =>
    have hafter : after? needle (needle ++ b) = some b := after?_append needle b
    rw [List.nil_append]
    cases htext : needle ++ b with
    | nil => rw [split?, ← htext, hafter]; rfl
    | cons c t => rw [split?, ← htext, hafter]; rfl
  | cons c a ih =>
    rw [List.cons_append, split?]
    split
    · rfl
    · rw [split?_seen, Option.isSome_map]
      exact ih

/-- A text that is put in place of another one makes up for it. -/
theorem size_replaceFirst {needle : List Char} (text : List Char) (h : needle <:+: s) :
    size (replaceFirst needle text s) + size needle = size s + size text := by
  obtain ⟨⟨a, b⟩, hsplit⟩ := Option.isSome_iff_exists.1 (isSome_split? h)
  have hs : s = a ++ needle ++ b := split?_append hsplit
  rw [replaceFirst, hsplit, hs]
  simp only [size_append]
  omega

/-- **No fill lands twice.** -/
theorem landed_sublist (row : Option String) (fills : List (String × String)) (text : List Char) :
    (landed row fills text).Sublist fills := by
  induction fills generalizing text with
  | nil => exact List.Sublist.refl []
  | cons fill fills ih =>
    rw [landed]
    split
    · exact (ih _).cons_cons fill
    · exact (ih _).cons fill

/-- **The account of some fills.** A text changes its size by the texts of the fills that land, and by the
placeholders that these take. -/
theorem size_write (row : Option String) (fills : List (String × String)) (text : List Char) :
    size (write row fills text) + placeholdersSize row (landed row fills text) =
      size text + textsSize (landed row fills text) := by
  induction fills generalizing text with
  | nil => rfl
  | cons fill fills ih =>
    have hwrite : write row (fill :: fills) text = write row fills
        (replaceFirst (Placeholder.lexeme row fill.1) fill.2.toList text) := rfl
    rw [hwrite, landed]
    by_cases hfound : Placeholder.lexeme row fill.1 <:+: text
    · have hrest := ih (replaceFirst (Placeholder.lexeme row fill.1) fill.2.toList text)
      have hfill := size_replaceFirst fill.2.toList hfound
      rw [if_pos hfound, placeholdersSize, textsSize, List.map_cons, List.map_cons, List.sum_cons,
        List.sum_cons, ← placeholdersSize, ← textsSize]
      omega
    · rw [if_neg hfound, replaceFirst_of_not_infix hfound]
      exact ih text

/-- Writing adds at most the texts that are written. -/
theorem size_write_le (row : Option String) (fills : List (String × String)) (text : List Char) :
    size (write row fills text) ≤ size text + textsSize fills := by
  have hsize := size_write row fills text
  have hle : textsSize (landed row fills text) ≤ textsSize fills :=
    ((landed_sublist row fills text).map _).sum_le_sum fun _ _ => Nat.zero_le _
  omega

theorem write_append (row : Option String) (fills fills' : List (String × String)) (text : List Char) :
    write row (fills ++ fills') text = write row fills' (write row fills text) := List.foldl_append

/-- Filling one key is writing its scalar, if it has one. -/
theorem fillOne_eq_write (row : Option String) (text : List Char) (key : String) (value : Value) :
    Placeholder.fillOne row text key value = write row (scalars [(key, value)]) text := by
  unfold Placeholder.fillOne
  split
  · next hscalar =>
    rw [scalars_cons_of_pos hscalar]
    rfl
  · next hscalar =>
    rw [scalars_cons_of_neg hscalar]
    rfl

/-- Filling from a record is writing its scalars in order. -/
theorem fill_eq_write (row : Option String) (text : List Char) (m : Mapping) :
    Placeholder.fill row text m = write row (scalars m) text := by
  induction m generalizing text with
  | nil => rfl
  | cons entry m ih =>
    have hfill : Placeholder.fill row text (entry :: m) =
        Placeholder.fill row (Placeholder.fillOne row text entry.1 entry.2) m := rfl
    have hscalars : scalars (entry :: m) = scalars [entry] ++ scalars m :=
      List.filterMap_append (l := [entry])
    rw [hfill, ih, fillOne_eq_write, hscalars, write_append]

/-- Filling from mappings is a list of fills, in any text. -/
theorem foldl_fill_eq_write (row : Option String) (text : List Char) (entries : List Mapping) :
    entries.foldl (Placeholder.fill row) text = write row (entries.flatMap scalars) text := by
  induction entries generalizing text with
  | nil => rfl
  | cons m entries ih => rw [List.foldl_cons, ih, fill_eq_write, List.flatMap_cons, write_append]

theorem textsSize_flatMap (entries : List Mapping) :
    textsSize (entries.flatMap scalars) = (entries.map fun m => textsSize (scalars m)).sum := by
  induction entries with
  | nil => rfl
  | cons m entries ih => rw [List.flatMap_cons, textsSize_append, ih, List.map_cons, List.sum_cons]

/-- Records that are filled in one after the other add at most their scalars. -/
theorem size_foldl_fill_le (row : Option String) (text : List Char) (entries : List Mapping) :
    size (entries.foldl (Placeholder.fill row) text) ≤
      size text + (entries.map fun m => textsSize (scalars m)).sum := by
  rw [← textsSize_flatMap, foldl_fill_eq_write]
  exact size_write_le row _ text

/-- A context adds at most the scalars of its mappings. -/
theorem size_fillAll_le (text : List Char) (context : Context) :
    size (Placeholder.fillAll text context) ≤
      size text + (context.entries.map fun m => textsSize (scalars m)).sum := by
  have hle := size_foldl_fill_le none text context.entries.reverse
  rwa [List.map_reverse, List.sum_reverse] at hle

/-! ### Scans -/

namespace Text.Recogniser

variable {α : Type} {r : Recogniser α} {f : α → List Char → List Char}

/-- **A scan adds what its replacements add**, and takes away the constructs that they stand for. -/
theorem size_replace_le (grown : α → Nat) (replaced : α → Bool) (h : ∀ {a front rest},
      r.read (front ++ rest) = some (a, front, rest) →
        size (f a front) + (if replaced a then size front else 0) ≤ size front + grown a)
    (s : List Char) :
    size (r.replace f s) +
        ((r.findAll s).map fun x => if replaced x.1 then x.2.2 - x.2.1 else 0).sum ≤
      size s + ((r.findAll s).map fun x => grown x.1).sum := by
  -- the sums go along with the pieces, each with its byte position
  have hpieces : ∀ {ps s} (n : Nat), r.Cut ps s → size (Piece.splice f ps) +
        ((Piece.constructs n ps).map fun x => if replaced x.1 then x.2.2 - x.2.1 else 0).sum ≤
      size s + ((Piece.constructs n ps).map fun x => grown x.1).sum := by
    intro ps s n hcut
    induction hcut generalizing n with
    | nil => exact Nat.le_refl 0
    | @plain text rest ps _ _ ih =>
      have hrest := ih (n + size text)
      have hsplice : Piece.splice f (.plain text :: ps) = text ++ Piece.splice f ps := rfl
      have hfound : Piece.constructs n (.plain text :: ps) = Piece.constructs (n + size text) ps := rfl
      rw [hsplice, hfound, size_append, size_append]
      omega
    | @found front rest a ps hread _ ih =>
      have hfront := h hread
      have hrest := ih (n + size front)
      have hsplice : Piece.splice f (.found a front :: ps) = f a front ++ Piece.splice f ps := rfl
      have hfound : Piece.constructs n (.found a front :: ps) =
        (a, n, n + size front) :: Piece.constructs (n + size front) ps := rfl
      rw [hsplice, hfound, size_append, size_append, List.map_cons, List.sum_cons, List.map_cons,
        List.sum_cons, Nat.add_sub_cancel_left]
      dsimp only
      omega
  exact hpieces 0 (r.cut_pieces s)

/-- A scan that puts nothing longer in place of a construct makes no text longer. -/
theorem size_replace_le_self (h : ∀ {a front rest},
      r.read (front ++ rest) = some (a, front, rest) → size (f a front) ≤ size front) (s : List Char) :
    size (r.replace f s) ≤ size s := by
  have hle := size_replace_le (fun _ => 0) (fun _ => false) h s
  simpa using hle

end Text.Recogniser

/-! ### Loops -/

/-- The size of the scalars of a row as they are written: of the row itself, or of its fields. -/
def Value.writtenSize : Value → Nat
  | .mapping fields => textsSize (scalars fields)
  | .sequence _ => 0
  | scalar => size scalar.display.toList

/-- For each row of a loop, the size of the body and of the scalars of the row. -/
def LoopBlock.rowsSize (data : Mapping) (b : LoopBlock) : Nat :=
  match data.get? b.key with
  | some value => (value.rows.map fun row => size b.body + row.writtenSize).sum
  | none => 0

/-- A row adds at most its own texts to the body. -/
theorem size_expandRow_le (b : LoopBlock) (row : Value) :
    size (b.expandRow row) ≤ size b.body + row.writtenSize := by
  have hscalar := size_write_le none (scalars [(b.key, row)]) b.body
  rw [← fillOne_eq_write] at hscalar
  cases row with
  | mapping fields =>
    have hfields := size_write_le (some b.key) (scalars fields) b.body
    rwa [← fill_eq_write] at hfields
  | _ => exact hscalar

/-- The rows of a loop are added up. -/
theorem size_flatMap_expandRow_le (b : LoopBlock) (rows : List Value) :
    size (rows.flatMap b.expandRow) ≤ (rows.map fun row => size b.body + row.writtenSize).sum := by
  induction rows with
  | nil => exact Nat.le_refl 0
  | cons row rows ih =>
    have hrow := size_expandRow_le b row
    rw [List.flatMap_cons, size_append, List.map_cons, List.sum_cons]
    omega

/-- A loop that is replaced adds at most its rows. -/
theorem size_expand_le (data : Mapping) (missing : MissingBlocks) (b : LoopBlock) (lexeme : List Char) :
    size (b.expand data missing lexeme) + (if (data.get? b.key).isSome then size lexeme else 0) ≤
      size lexeme + b.rowsSize data := by
  unfold LoopBlock.expand LoopBlock.rowsSize
  cases data.get? b.key with
  | some value =>
    have hrows := size_flatMap_expandRow_le b value.rows
    rw [Option.isSome_some, if_pos rfl]
    dsimp only
    omega
  | none =>
    cases missing with
    | preserve => exact Nat.le_refl _
    | remove => exact Nat.zero_le _

/-- The loops over bound keys give way to their rows. -/
theorem size_loops_le (data : Mapping) (missing : MissingBlocks) (text : List Char) :
    size (Expansion.loops data missing text) + ((LoopBlock.recogniser.findAll text).map fun x =>
        if (data.get? x.1.key).isSome then x.2.2 - x.2.1 else 0).sum ≤
      size text + ((LoopBlock.recogniser.findAll text).map fun x => x.1.rowsSize data).sum :=
  Recogniser.size_replace_le (LoopBlock.rowsSize data) (fun b => (data.get? b.key).isSome)
    (fun _ => size_expand_le data missing _ _) text

/-- **Texts do not run away.** A text that is filled from any mappings, under any prefix of the keys,
changes its size by the scalars that land in it, none of them twice, and by the placeholders that these
take; so it grows by no more than the scalars of the mappings as they are written. A text whose loops
are expanded grows by no more than the rows of the loops that are found in it, for which the loops over
bound keys give way. All this holds also where the scalars hold placeholders. -/
theorem growth_le (text : List Char) :
    (∀ (row : Option String) (entries : List Mapping),
      (landed row (entries.flatMap scalars) text).Sublist (entries.flatMap scalars) ∧
      size (entries.foldl (Placeholder.fill row) text) +
          placeholdersSize row (landed row (entries.flatMap scalars) text) =
        size text + textsSize (landed row (entries.flatMap scalars) text) ∧
      size (entries.foldl (Placeholder.fill row) text) ≤
        size text + (entries.map fun m => textsSize (scalars m)).sum) ∧
    (∀ context : Context, size (Placeholder.fillAll text context) ≤
      size text + (context.entries.map fun m => textsSize (scalars m)).sum) ∧
    ∀ (data : Mapping) (missing : MissingBlocks),
      size (Expansion.loops data missing text) + ((LoopBlock.recogniser.findAll text).map fun x =>
          if (data.get? x.1.key).isSome then x.2.2 - x.2.1 else 0).sum ≤
        size text + ((LoopBlock.recogniser.findAll text).map fun x => x.1.rowsSize data).sum := by
  refine ⟨fun row entries => ⟨landed_sublist row _ text, ?_, size_foldl_fill_le row text entries⟩,
    size_fillAll_le text, fun data missing => size_loops_le data missing text⟩
  rw [foldl_fill_eq_write]
  exact size_write row _ text

/-- Two keys that name each other, and themselves. -/
example : Placeholder.fillAll "\x7b\x7ba\x7d\x7d".toList (.single
      [("a", .string "\x7b\x7ba\x7d\x7d\x7b\x7bb\x7d\x7d"),
        ("b", .string "\x7b\x7ba\x7d\x7d\x7b\x7bb\x7d\x7d")]) =
    "\x7b\x7ba\x7d\x7d\x7b\x7ba\x7d\x7d\x7b\x7bb\x7d\x7d".toList := by decide +kernel

/-! ### Renderings -/

/-- The body of a conditional is shorter than its block. -/
theorem size_body_le {b : ConditionalBlock} {front rest : List Char}
    (h : ConditionalBlock.recogniser.read s = some (b, front, rest)) : size b.body ≤ size front := by
  have hread := block_read Tag.condition Tag.ifCloseText ConditionalBlock.mk s
  rw [← ConditionalBlock.recogniser, h, eq_comm, Option.bind_eq_some_iff] at hread
  obtain ⟨⟨x, tag, tail⟩, -, hread⟩ := hread
  obtain ⟨⟨body, behind⟩, -, he⟩ := Option.map_eq_some_iff.1 hread
  cases he
  simp only [size_append]
  omega

/-- A branch is not longer than the body it is taken from. -/
theorem size_resolve_le (data : Mapping) (b : ConditionalBlock) : size (b.resolve data) ≤ size b.body := by
  have hbranches : size b.whenTrue ≤ size b.body ∧ size b.whenFalse ≤ size b.body := by
    unfold ConditionalBlock.whenTrue ConditionalBlock.whenFalse
    cases hsplit : split? Tag.otherwiseText [] b.body with
    | none => exact ⟨Nat.le_refl _, Nat.zero_le _⟩
    | some y =>
      obtain ⟨front, back⟩ := y
      have hbody : b.body = front ++ Tag.otherwiseText ++ back := split?_append hsplit
      rw [hbody, size_append, size_append]
      dsimp only
      omega
  unfold ConditionalBlock.resolve
  split
  · exact hbranches.1
  · exact hbranches.2

/-- Resolving makes no text larger. -/
theorem size_conditionals_le (data : Mapping) (text : List Char) :
    size (Expansion.conditionals data text) ≤ size text :=
  Recogniser.size_replace_le_self (fun hread => (size_resolve_le data _).trans (size_body_le hread)) text

/-- Clearing makes no text larger. -/
theorem size_clear_le (text : List Char) : size (Placeholder.clear text) ≤ size text :=
  Recogniser.size_replace_le_self (fun _ => Nat.zero_le _) text

/-- **A rendering is no longer than** the template, the scalars of the context and the rows of the loops
in the filled template. Only these two passes make a text longer. -/
theorem size_render_le (missing : MissingBlocks) (template : String) (context : Context) :
    size (render missing template context).toList ≤
      size template.toList + (context.entries.map fun m => textsSize (scalars m)).sum +
        ((LoopBlock.recogniser.findAll (Placeholder.fillAll template.toList context)).map fun x =>
          x.1.rowsSize context.merged).sum := by
  have hclear := size_clear_le (Expansion.conditionals context.merged
    (Expansion.loops context.merged missing (Placeholder.fillAll template.toList context)))
  have hconditionals := size_conditionals_le context.merged
    (Expansion.loops context.merged missing (Placeholder.fillAll template.toList context))
  have hloops := size_loops_le context.merged missing (Placeholder.fillAll template.toList context)
  have hfill := size_fillAll_le template.toList context
  rw [render, String.toList_ofList]
  omega

end Stencil
