import Stencil.Proofs.Spelling

/-!
# Kinds of tags

What the passes look for in a text is a tag, and each tag is looked for by one of them only: the scan
for all tags and the scans for one kind of tag find the same tags.

* `placeholderPath_eq_some`, `loopKey_eq_some`, `condition_eq_some`: what tags look like.
* `loopKey_read_iff`, `condition_read_iff`, `placeholderPath_read_iff`: a reader for tags of one kind
  reads the tags of that kind.
* `Sign`: closing tags and placeholders have one spelling each, so that they can be searched for as
  pieces of text.
-/

namespace Stencil

open Text

variable {α β : Type} {s t front rest v : List Char}

namespace Tag

/-! ### Paths -/

/-- A path has characters of keys, and points between them. -/
theorem isPathFrom_true {b : Bool} (h : isPathFrom b s = true) : ∀ c ∈ s, isKeyChar c = true ∨ c = '.' := by
  induction s generalizing b with
  | nil => exact fun _ hc => absurd hc List.not_mem_nil
  | cons d s ih =>
    rw [isPathFrom] at h
    intro c hc
    split at h
    · next hd =>
      rcases List.mem_cons.1 hc with rfl | hc
      · exact .inl hd
      · exact ih h c hc
    · simp only [Bool.and_eq_true, beq_iff_eq] at h
      rcases List.mem_cons.1 hc with rfl | hc
      · exact .inr h.1.1
      · exact ih h.2 c hc

/-- A path has no closing brace. -/
theorem closing_not_mem_of_isPath (h : isPath s = true) : '}' ∉ s := by
  intro hm
  rcases isPathFrom_true h _ hm with hc | hc <;> exact absurd hc (by decide)

/-- A path has no opening brace. -/
theorem opening_not_mem_of_isPath (h : isPath s = true) : '{' ∉ s := by
  intro hm
  rcases isPathFrom_true h _ hm with hc | hc <;> exact absurd hc (by decide)

/-- A key is a path by itself, and goes on with a path that has begun. -/
theorem isPathFrom_of_forall {b : Bool} (h : ∀ c ∈ s, isKeyChar c = true) (hb : b = true ∨ s ≠ []) :
    isPathFrom b s = true := by
  induction s generalizing b with
  | nil => exact hb.resolve_right fun hne => hne rfl
  | cons c s ih =>
    rw [List.forall_mem_cons] at h
    rw [isPathFrom, if_pos h.1]
    exact ih h.2 (.inl rfl)

/-- A single key is a path. -/
theorem isPath_of_forall (h : ∀ c ∈ s, isKeyChar c = true) (hne : s ≠ []) : isPath s = true :=
  isPathFrom_of_forall h (.inr hne)

/-- Two paths with a point between them are a path. -/
theorem isPathFrom_append_dot {b : Bool} (hs : isPathFrom b s = true) (ht : isPath t = true) :
    isPathFrom b (s ++ '.' :: t) = true := by
  induction s generalizing b with
  | nil =>
    rw [isPathFrom] at hs
    rw [List.nil_append, isPathFrom, if_neg (by decide), hs]
    exact ht
  | cons c s ih =>
    rw [isPathFrom] at hs
    rw [List.cons_append, isPathFrom]
    split
    · next hc => exact ih (by rwa [if_pos hc] at hs)
    · next hc =>
      rw [if_neg hc, Bool.and_eq_true] at hs
      rw [hs.1, ih hs.2]
      rfl

/-- Paths are put together with a point between them. -/
theorem isPath_append_dot (hs : isPath s = true) (ht : isPath t = true) :
    isPath (s ++ '.' :: t) = true :=
  isPathFrom_append_dot hs ht

/-- A path begins with a character of a key. -/
theorem exists_cons_of_isPath (h : isPath s = true) : ∃ c t, s = c :: t ∧ isKeyChar c = true := by
  cases s with
  | nil => exact absurd h (by decide)
  | cons c s =>
    refine ⟨c, s, rfl, ?_⟩
    rw [isPath, isPathFrom] at h
    split at h
    · assumption
    · simp at h

/-- A placeholder is a path between braces, and nothing else. -/
theorem placeholderPath_eq_some {path : String} :
    placeholderPath.read s = some (path, front, rest) ↔
      isPath path.toList = true ∧ front = braced path.toList ∧ s = front ++ rest := by
  have hread : placeholderPath.read s = (Reader.exactly opening >>= fun _ => do
      let path ← Reader.run fun c => isKeyChar c || c == '.'
      .guard (isPath path)
      .exactly closing
      return String.ofList path).read s := rfl
  rw [hread, Reader.exactly_bind_eq_some]
  constructor
  · rintro ⟨mid, z, rfl, hz, rfl⟩
    obtain ⟨cs, _, _, _, hcs, hend, rfl⟩ := Reader.bind_eq_some.1 hz
    obtain ⟨rfl, rfl, -, -⟩ := Reader.run_eq_some_iff.1 hcs
    rw [Reader.guard_bind_read] at hend
    split at hend
    · next hpath =>
      obtain ⟨rfl, rfl, rfl⟩ := exactly_closing_eq_some.1 hend
      rw [String.toList_ofList]
      exact ⟨hpath, by simp [braced], by simp⟩
    · cases hend
  · rintro ⟨hpath, rfl, rfl⟩
    have hall : ∀ c ∈ path.toList, (isKeyChar c || c == '.') = true := by
      intro c hc
      simpa using isPathFrom_true hpath c hc
    refine ⟨path.toList ++ (closing ++ rest), path.toList ++ closing, by simp [braced], ?_,
      by simp [braced]⟩
    refine Reader.bind_eq_some.2 ⟨_, _, _, _,
      Reader.run_eq_some_iff.2 ⟨rfl, rfl, hall, stops_cons.2 (by decide)⟩, ?_, rfl⟩
    rw [Reader.guard_bind_read, if_pos hpath]
    exact exactly_closing_eq_some.2 ⟨String.ofList_toList.symm, rfl, rfl⟩

/-! ### Kinds of tags -/

theorem opening_not_mem_of_blank (h : ∀ c ∈ s, isBlank c = true) : '{' ∉ s :=
  fun hm => absurd (h _ hm) (by decide)

theorem IsKey.opening_not_mem (h : IsKey s) : '{' ∉ s := fun hm => absurd (h.2 _ hm) (by decide)

/-- What is read as the opening tag of a loop: its key is one, and behind its first braces there is no
opening brace. -/
theorem loopKey_eq_some {key : String} (h : loopKey.read s = some (key, front, rest)) :
    IsKey key.toList ∧ ∃ w, front = opening ++ '#' :: 'e' :: 'a' :: w ∧ '{' ∉ w := by
  obtain ⟨⟨hkey, blanks, -, hblank, rfl⟩, -⟩ := loopKey_eq_some_iff.1 h
  refine ⟨hkey, 'c' :: 'h' :: (blanks ++ (key.toList ++ closing)), by simp [braced], ?_⟩
  simp [opening_not_mem_of_blank hblank, hkey.opening_not_mem, closing]

/-- What a condition compares with, as a text; empty where it does not compare. -/
def operandText (c : Condition) : List Char := (c.comparison.elim "" (·.operand)).toList

/-- The opening tag of a conditional has no opening brace around its operand, save the first two. -/
theorem condition_eq_some {c : Condition} (h : condition.read s = some (c, front, rest)) :
    ∃ u w, front = opening ++ '#' :: 'i' :: (u ++ (operandText c ++ (w ++ closing))) ∧
      '{' ∉ u ∧ '{' ∉ w := by
  obtain ⟨⟨hkey, blanks, blanks', compared, -, hblank, hblank', hcompared, rfl⟩, -⟩ :=
    condition_eq_some_iff.1 h
  obtain ⟨key, comparison⟩ := c
  have hfront : '{' ∉ blanks ++ (key.toList ++ blanks') := by
    simp [opening_not_mem_of_blank hblank, hkey.opening_not_mem, opening_not_mem_of_blank hblank']
  cases hcompared with
  | bare =>
    refine ⟨'f' :: (blanks ++ (key.toList ++ blanks')), [], by simp [operandText, braced], ?_,
      List.not_mem_nil⟩
    simpa using hfront
  | @compared inner op q hq =>
    have hsymbol : '{' ∉ op.symbol.toList := by cases op <;> decide
    have hquote : '{' ∉ q.quote := by rcases q.quote_eq with h | h <;> simp [h]
    have hunquote : '{' ∉ q.unquote := by rcases q.unquote_eq with h | h <;> simp [h]
    have hbefore := opening_not_mem_of_blank q.blank_before
    have hbehind := opening_not_mem_of_blank q.blank_behind
    have htext := congrArg (op.symbol.toList ++ ·) q.text_eq
    refine ⟨'f' :: (blanks ++ (key.toList ++ blanks')) ++ (op.symbol.toList ++ (q.before ++ q.quote)),
      q.unquote ++ q.behind, ?_, ?_, ?_⟩
    · rw [htext]
      simp [operandText, braced]
    · simp only [List.cons_append, List.mem_cons, List.mem_append, not_or] at hfront ⊢
      exact ⟨by decide, hfront, hsymbol, hbefore, hquote⟩
    · simp [hunquote, hbehind]

/-- A mapped recogniser reads the same texts. -/
theorem map_read (r : Recogniser α) (f : α → β) (s : List Char) :
    (r.map f).read s = (r.read s).map fun (a, x) => (f a, x) := by
  show (r.toReader >>= fun a => pure (f a)).read s = _
  simp only [Bind.bind, Reader.bind, pure]
  cases r.read s <;> simp

/-- A tag without a key is read where its text stands. -/
theorem fixed_read (lexeme : List Char) (h : lexeme ≠ []) (tag : Tag) (s : List Char) :
    (fixed lexeme h tag).read s = (after? lexeme s).map fun rest => (tag, lexeme, rest) := by
  rw [fixed, map_read]
  show ((after? lexeme s).map _).map _ = _
  rw [Option.map_map]
  rfl

/-- Tags of every kind, in the order in which they are tried. -/
theorem recogniser_read (s : List Char) : recogniser.read s =
    ((after? eachCloseText s).map fun rest => (eachClose, eachCloseText, rest)).or
    (((after? otherwiseText s).map fun rest => (otherwise, otherwiseText, rest)).or
    (((after? ifCloseText s).map fun rest => (ifClose, ifCloseText, rest)).or
    (((loopKey.read s).map fun (key, x) => (eachOpen key, x)).or
    (((condition.read s).map fun (c, x) => (ifOpen c, x)).or
    ((placeholderPath.read s).map fun (path, x) => (placeholder path, x)))))) := by
  have step : ∀ {p q : Recogniser Tag} {x y}, p.read s = x → q.read s = y →
      (p <|> q).read s = x.or y := by
    rintro p q _ _ rfl rfl
    exact Reader.orElse_read p.toReader q.toReader s
  exact step (fixed_read _ _ _ s) <| step (fixed_read _ _ _ s) <| step (fixed_read _ _ _ s) <|
    step (map_read _ _ s) <| step (map_read _ _ s) (map_read _ _ s)

/-! Each tag begins in its own way, so that no text is read as tags of two kinds. -/

variable {key path : String} {c : Condition}

/-- A text with another character behind its braces is not found. -/
theorem after?_of_begins {d e : Char} {w t : List Char} (h : d ≠ e) :
    after? (opening ++ d :: w) (opening ++ e :: t) = none := by
  simp [opening, after?, h]

/-- A loop is opened only by tags that begin like one. -/
theorem loopKey_of_begins {t : List Char} (h : ∀ t', t ≠ '#' :: 'e' :: 'a' :: t') :
    loopKey.read (opening ++ t) = none := by
  cases hr : loopKey.read (opening ++ t) with
  | none => rfl
  | some x =>
    obtain ⟨-, w, hw, -⟩ := loopKey_eq_some hr
    have := loopKey.faithful hr
    rw [hw, List.append_assoc] at this
    exact absurd (List.append_cancel_left this) (h _)

/-- A conditional is opened only by tags that begin like one. -/
theorem condition_of_begins {t : List Char} (h : ∀ t', t ≠ '#' :: 'i' :: t') :
    condition.read (opening ++ t) = none := by
  cases hr : condition.read (opening ++ t) with
  | none => rfl
  | some x =>
    obtain ⟨u, w, hfront, -⟩ := condition_eq_some hr
    have := condition.faithful hr
    rw [hfront, List.append_assoc] at this
    exact absurd (List.append_cancel_left this) (h _)

/-- **The opening tags of loops** are those tags that are read as such: no other kind of tag is tried
before that begins in the same way. -/
theorem loopKey_read_iff : loopKey.read s = some (key, front, rest) ↔
    recogniser.read s = some (eachOpen key, front, rest) := by
  constructor
  · intro h
    obtain ⟨-, w, rfl, -⟩ := loopKey_eq_some h
    obtain rfl := loopKey.faithful h
    rw [recogniser_read, h]
    rfl
  · intro h
    simp only [recogniser_read, Option.or_eq_some_iff, Option.map_eq_some_iff] at h
    obtain ⟨-, -, -, h⟩ : _ ∧ _ ∧ _ ∧ loopKey.read s = some (key, front, rest) := by simpa using h
    exact h

/-- **The opening tags of conditionals** are those tags that are read as such. -/
theorem condition_read_iff : condition.read s = some (c, front, rest) ↔
    recogniser.read s = some (ifOpen c, front, rest) := by
  constructor
  · intro h
    obtain ⟨u, w, rfl, -⟩ := condition_eq_some h
    obtain rfl := condition.faithful h
    have hloop : ∀ w, loopKey.read (opening ++ '#' :: 'i' :: w ++ rest) = none := by
      intro w
      rw [List.append_assoc]
      exact loopKey_of_begins (by simp)
    rw [recogniser_read, h, hloop]
    rfl
  · intro h
    simp only [recogniser_read, Option.or_eq_some_iff, Option.map_eq_some_iff] at h
    obtain ⟨-, -, -, -, h⟩ : _ ∧ _ ∧ _ ∧ _ ∧ condition.read s = some (c, front, rest) := by
      simpa using h
    exact h

/-- **Placeholders** are those tags that are read as such. -/
theorem placeholderPath_read_iff : placeholderPath.read s = some (path, front, rest) ↔
    recogniser.read s = some (placeholder path, front, rest) := by
  constructor
  · intro h
    obtain ⟨hpath, rfl, rfl⟩ := placeholderPath_eq_some.1 h
    obtain ⟨d, w, hw, hd⟩ := exists_cons_of_isPath hpath
    have hs : braced path.toList ++ rest = opening ++ d :: (w ++ closing ++ rest) := by
      simp [braced, hw]
    -- no path begins like another kind of tag
    have hslash : '/' ≠ d := fun he => absurd (he ▸ hd) (by decide)
    have hhash : '#' ≠ d := fun he => absurd (he ▸ hd) (by decide)
    rw [recogniser_read, h, hs, loopKey_of_begins (by simp [hhash.symm]),
      condition_of_begins (by simp [hhash.symm])]
    have h1 : after? eachCloseText (opening ++ d :: (w ++ closing ++ rest)) = none :=
      after?_of_begins hslash
    have h2 : after? otherwiseText (opening ++ d :: (w ++ closing ++ rest)) = none :=
      after?_of_begins hhash
    have h3 : after? ifCloseText (opening ++ d :: (w ++ closing ++ rest)) = none :=
      after?_of_begins hslash
    rw [h1, h2, h3]
    rfl
  · intro h
    simp only [recogniser_read, Option.or_eq_some_iff, Option.map_eq_some_iff] at h
    obtain ⟨-, -, -, -, -, h⟩ : _ ∧ _ ∧ _ ∧ _ ∧ _ ∧
        placeholderPath.read s = some (path, front, rest) := by simpa using h
    exact h

/-- **The sign of a tag** is the only text that is read as the tag. Opening tags have none. -/
def Sign (tag : Tag) (sign : List Char) : Prop :=
  ∀ {s front rest}, recogniser.read s = some (tag, front, rest) ↔ front = sign ∧ s = sign ++ rest

/-- The closing tag of a loop has one spelling. -/
theorem sign_eachClose : Sign eachClose eachCloseText := by
  intro s front rest
  constructor
  · intro h
    simp only [recogniser_read, Option.or_eq_some_iff, Option.map_eq_some_iff] at h
    obtain ⟨t, ht, rfl, rfl⟩ : ∃ t, after? eachCloseText s = some t ∧ eachCloseText = front ∧
        t = rest := by simpa using h
    exact ⟨rfl, Text.after?_eq_some_iff.1 ht⟩
  · rintro ⟨rfl, rfl⟩
    rw [recogniser_read, after?_append]
    rfl

/-- The tag between two branches has one spelling. -/
theorem sign_otherwise : Sign otherwise otherwiseText := by
  intro s front rest
  constructor
  · intro h
    simp only [recogniser_read, Option.or_eq_some_iff, Option.map_eq_some_iff] at h
    obtain ⟨-, t, ht, rfl, rfl⟩ : _ ∧ ∃ t, after? otherwiseText s = some t ∧ otherwiseText = front ∧
        t = rest := by simpa using h
    exact ⟨rfl, Text.after?_eq_some_iff.1 ht⟩
  · rintro ⟨rfl, rfl⟩
    rw [recogniser_read, after?_append]
    rfl

/-- The closing tag of a conditional has one spelling. -/
theorem sign_ifClose : Sign ifClose ifCloseText := by
  intro s front rest
  constructor
  · intro h
    simp only [recogniser_read, Option.or_eq_some_iff, Option.map_eq_some_iff] at h
    obtain ⟨-, -, t, ht, rfl, rfl⟩ : _ ∧ _ ∧ ∃ t, after? ifCloseText s = some t ∧
        ifCloseText = front ∧ t = rest := by simpa using h
    exact ⟨rfl, Text.after?_eq_some_iff.1 ht⟩
  · rintro ⟨rfl, rfl⟩
    rw [recogniser_read, after?_append]
    rfl

/-- The placeholder of a path has one spelling. -/
theorem sign_placeholder (h : isPath path.toList = true) :
    Sign (placeholder path) (braced path.toList) := by
  intro s front rest
  rw [← placeholderPath_read_iff, placeholderPath_eq_some]
  constructor
  · rintro ⟨-, rfl, rfl⟩
    exact ⟨rfl, rfl⟩
  · rintro ⟨rfl, rfl⟩
    exact ⟨h, rfl, rfl⟩

/-- A tag with one spelling is read exactly where the spelling stands. -/
theorem Sign.after?_eq_some_iff {tag : Tag} {sign : List Char} (h : Sign tag sign) :
    after? sign s = some rest ↔ recogniser.read s = some (tag, sign, rest) := by
  rw [Text.after?_eq_some_iff, h]
  exact ⟨fun he => ⟨rfl, he⟩, fun he => he.2⟩

/-- A tag begins with two opening braces. -/
theorem recogniser_begins {tag : Tag} (h : recogniser.read s = some (tag, front, rest)) :
    ∃ w, front = opening ++ w := by
  cases tag with
  | placeholder path =>
    obtain ⟨-, rfl, -⟩ := placeholderPath_eq_some.1 (placeholderPath_read_iff.2 h)
    exact ⟨path.toList ++ closing, by simp [braced]⟩
  | eachOpen key =>
    obtain ⟨-, w, rfl, -⟩ := loopKey_eq_some (loopKey_read_iff.2 h)
    exact ⟨_, rfl⟩
  | ifOpen c =>
    obtain ⟨u, w, rfl, -⟩ := condition_eq_some (condition_read_iff.2 h)
    exact ⟨_, rfl⟩
  | eachClose => exact ⟨_, (sign_eachClose.1 h).1⟩
  | otherwise => exact ⟨_, (sign_otherwise.1 h).1⟩
  | ifClose => exact ⟨_, (sign_ifClose.1 h).1⟩

end Tag

end Stencil
