import Stencil.Proofs.Scan
import Stencil.Template.Block

/-!
# Where tags end

A tag is read from its opening braces to the first closing braces behind them, and what stands behind
those does not matter. Readers of tags are made of readers of their parts, and so is the proof.

* `Closing`: what is true of every reader of a whole tag; `Interior`: of every reader of a part of one.
* `Closing.orElse`: two readers of whole tags can be tried one after the other.
* `closing_recogniser`: tags are read that way.
-/

namespace Stencil

open Text

variable {α β : Type} {s t front rest v : List Char}

namespace Text.Reader

variable {p : Reader α} {f : α → Reader β} {b : β}

/-- Reading twice: the second reader goes on where the first one ended. -/
theorem bind_eq_some : (p >>= f).read s = some (b, front, rest) ↔
    ∃ a x mid y, p.read s = some (a, x, mid) ∧ (f a).read mid = some (b, y, rest) ∧
      front = x ++ y := by
  simp only [Bind.bind, bind]
  constructor
  · intro h
    split at h
    · cases h
    · next a x mid hp =>
      split at h
      · cases h
      · next b' y rest' hf =>
        obtain ⟨rfl, rfl, rfl⟩ := h
        exact ⟨a, x, mid, y, hp, hf, rfl⟩
  · rintro ⟨a, x, mid, y, hp, hf, rfl⟩
    rw [hp]
    simp only [hf]

/-- The second reader is tried where the first one finds nothing. -/
theorem orElse_read (p q : Reader α) (s : List Char) : (p <|> q).read s = (p.read s).or (q.read s) := by
  cases h : p.read s <;> simp [HOrElse.hOrElse, OrElse.orElse, orElse, h]

/-- Given characters are taken where they stand first, and nowhere else. -/
theorem exactly_eq_some {needle : List Char} {u : Unit} :
    (exactly needle).read s = some (u, front, rest) ↔ front = needle ∧ s = needle ++ rest := by
  rw [exactly]
  constructor
  · intro h
    obtain ⟨t, ht, he⟩ := Option.map_eq_some_iff.1 h
    simp_all [after?_eq_some_iff.1 ht]
  · rintro ⟨rfl, rfl⟩
    simp

/-- A reader that begins with given characters goes on behind them. -/
theorem exactly_bind_eq_some {needle : List Char} {f : Unit → Reader β} :
    (exactly needle >>= f).read s = some (b, front, rest) ↔
      ∃ mid y, s = needle ++ mid ∧ (f ()).read mid = some (b, y, rest) ∧ front = needle ++ y := by
  rw [bind_eq_some]
  constructor
  · rintro ⟨⟨⟩, x, mid, y, hx, hy, rfl⟩
    obtain ⟨rfl, rfl⟩ := exactly_eq_some.1 hx
    exact ⟨mid, y, rfl, hy, rfl⟩
  · rintro ⟨mid, y, rfl, hy, rfl⟩
    exact ⟨(), needle, mid, y, exactly_eq_some.2 ⟨rfl, rfl⟩, hy, rfl⟩

/-- A condition takes no characters. -/
theorem guard_bind_read (c : Bool) (f : Unit → Reader β) (s : List Char) :
    (guard c >>= f).read s = if c then (f ()).read s else none := by
  simp only [Bind.bind, bind, guard]
  cases c with
  | false => rfl
  | true => cases h : (f ()).read s <;> simp [h]

end Text.Reader

namespace Tag

/-- **A part of a tag.** The reader takes no closing brace, and sees no more than the first character
of what stands behind the text it takes. -/
structure Interior (p : Reader α) : Prop where
  unclosed : ∀ {s a front rest}, p.read s = some (a, front, rest) → '}' ∉ front
  steady : ∀ {s a front rest v}, p.read s = some (a, front, rest) → v.head? = rest.head? →
    p.read (front ++ v) = some (a, front, v)

/-- **A whole tag.** The reader takes everything up to the first closing braces and sees nothing
behind them. -/
structure Closing (p : Reader α) : Prop where
  closed : ∀ {s a front rest}, p.read s = some (a, front, rest) →
    ∃ inner, front = inner ++ closing ∧ '}' ∉ inner
  steady : ∀ {s a front rest} v, p.read s = some (a, front, rest) →
    p.read (front ++ v) = some (a, front, v)

namespace Interior

variable {p q : Reader α}

/-- No characters at all are a part of a tag. -/
theorem pure (a : α) : Interior (Pure.pure a : Reader α) where
  unclosed := by rintro s _ _ _ ⟨⟩; exact List.not_mem_nil
  steady := by rintro s _ _ _ v ⟨⟩ _; rfl

/-- Given characters are a part of a tag if no closing brace is among them. -/
theorem exactly {needle : List Char} (h : '}' ∉ needle) : Interior (Reader.exactly needle) where
  unclosed hr := (Reader.exactly_eq_some.1 hr).1 ▸ h
  steady hr _ := by
    obtain ⟨rfl, -⟩ := Reader.exactly_eq_some.1 hr
    exact Reader.exactly_eq_some.2 ⟨rfl, rfl⟩

/-- A condition on what was read before is a part of a tag. -/
theorem guard (b : Bool) : Interior (Reader.guard b) where
  unclosed := by
    intro s _ _ _ h
    simp only [Reader.guard] at h
    split at h
    · obtain ⟨-, rfl, -⟩ := h
      exact List.not_mem_nil
    · cases h
  steady := by
    intro s _ _ _ v h _
    simp only [Reader.guard] at h ⊢
    split at h
    · next hb => obtain ⟨-, rfl, -⟩ := h; rw [if_pos hb]; rfl
    · cases h

/-- Two parts of a tag make up a part of a tag. The second one begins with what the first one sees
behind itself, so that it may look one character ahead. -/
theorem bind {f : α → Reader β} (hp : Interior p) (hf : ∀ a, Interior (f a)) :
    Interior (p >>= f) where
  unclosed h := by
    obtain ⟨a, x, mid, y, hx, hy, rfl⟩ := Reader.bind_eq_some.1 h
    rw [List.mem_append, not_or]
    exact ⟨hp.unclosed hx, (hf a).unclosed hy⟩
  steady {s b front rest v} h hv := by
    obtain ⟨a, x, mid, y, hx, hy, rfl⟩ := Reader.bind_eq_some.1 h
    have hmid : (y ++ v).head? = mid.head? := by
      rw [(f a).faithful hy, List.head?_append, List.head?_append, hv]
    rw [List.append_assoc]
    exact Reader.bind_eq_some.2 ⟨a, x, y ++ v, y, hp.steady hx hmid, (hf a).steady hy hv, rfl⟩

/-- The longest run of characters that are no closing braces is a part of a tag. -/
theorem run {g : Char → Bool} (h : g '}' = false) : Interior (Reader.run g) where
  unclosed := by
    rintro s _ _ _ ⟨⟩ hm
    have := List.all_takeWhile (p := g) (l := s)
    rw [List.all_eq_true] at this
    exact absurd (this _ hm) (by simp [h])
  steady := by
    rintro s _ _ _ v ⟨⟩ hv
    have hall : ∀ c ∈ s.takeWhile g, g c = true := List.all_eq_true.1 List.all_takeWhile
    -- `v` begins as the rest does, with a character that ends the run
    have hstop : v.takeWhile g = [] := by
      cases v with
      | nil => rfl
      | cons c v =>
        have hc : (s.dropWhile g).head? = some c := hv.symm
        have := List.head?_dropWhile_not g s
        rw [hc] at this
        simpa [List.takeWhile_cons] using this
    have htake : (s.takeWhile g ++ v).takeWhile g = s.takeWhile g := by
      rw [List.takeWhile_append_of_pos hall, hstop, List.append_nil]
    have hdrop : (s.takeWhile g ++ v).dropWhile g = v := by
      have := List.takeWhile_append_dropWhile (p := g) (l := s.takeWhile g ++ v)
      rw [htake] at this
      exact List.append_cancel_left this
    simp only [Reader.run, htake, hdrop]

/-- A run of at least one character is a part of a tag, if none of them is a closing brace. -/
theorem run1 {g : Char → Bool} (h : g '}' = false) : Interior (Reader.run1 g) :=
  (run h).bind fun _ => (guard _).bind fun _ => pure _

/-- A character that may be missing is a part of a tag. -/
theorem optional {c : Char} (h : c ≠ '}') : Interior (Reader.optional [c]) where
  unclosed hr := by
    rw [Reader.optional, Reader.orElse_read, Option.or_eq_some_iff] at hr
    rcases hr with hr | ⟨-, hr⟩
    · exact (exactly (by simpa using h.symm)).unclosed hr
    · exact (pure ()).unclosed hr
  steady {s a front rest v} hr hv := by
    rw [Reader.optional, Reader.orElse_read, Option.or_eq_some_iff] at hr ⊢
    rcases hr with hr | ⟨hn, hr⟩
    · exact .inl ((exactly (by simpa using h.symm)).steady hr hv)
    · -- the character is missing here, so it is missing wherever the text starts alike
      obtain ⟨-, rfl, rfl⟩ := hr
      refine .inr ⟨?_, rfl⟩
      cases v with
      | nil => rfl
      | cons d v =>
        cases s with
        | nil => simp at hv
        | cons e s =>
          obtain rfl : d = e := by simpa using hv
          simp only [Reader.exactly, after?, List.nil_append] at hn ⊢
          split <;> simp_all

end Interior

namespace Closing

variable {p q : Reader α}

/-- A tag that is always spelt the same way. -/
theorem exactly {inner : List Char} (h : '}' ∉ inner) :
    Closing (Reader.exactly (inner ++ closing)) where
  closed hr := ⟨inner, (Reader.exactly_eq_some.1 hr).1, h⟩
  steady v hr := by
    obtain ⟨rfl, -⟩ := Reader.exactly_eq_some.1 hr
    exact Reader.exactly_eq_some.2 ⟨rfl, rfl⟩

/-- What is made of a tag does not matter. -/
theorem map (hp : Closing p) (f : α → β) : Closing (p >>= fun a => Pure.pure (f a)) where
  closed hr := by
    obtain ⟨a, x, mid, y, hx, hy, rfl⟩ := Reader.bind_eq_some.1 hr
    obtain ⟨-, rfl, -⟩ := hy
    simpa using hp.closed hx
  steady v hr := by
    obtain ⟨a, x, mid, y, hx, hy, rfl⟩ := Reader.bind_eq_some.1 hr
    obtain ⟨rfl, rfl, rfl⟩ := hy
    rw [List.append_nil]
    exact Reader.bind_eq_some.2 ⟨a, x, v, [], hp.steady v hx, rfl, by simp⟩

/-- A part of a tag and then a whole tag are a whole tag. A tag is not empty, so that its first
character is the one that the part before it sees. -/
theorem bind {f : α → Reader β} (hp : Interior p) (hf : ∀ a, Closing (f a)) :
    Closing (p >>= f) where
  closed hr := by
    obtain ⟨a, x, mid, y, hx, hy, rfl⟩ := Reader.bind_eq_some.1 hr
    obtain ⟨inner, rfl, hin⟩ := (hf a).closed hy
    refine ⟨x ++ inner, by simp, ?_⟩
    rw [List.mem_append, not_or]
    exact ⟨hp.unclosed hx, hin⟩
  steady v hr := by
    obtain ⟨a, x, mid, y, hx, hy, rfl⟩ := Reader.bind_eq_some.1 hr
    have hmid : (y ++ v).head? = mid.head? := by
      obtain ⟨inner, hy', -⟩ := (hf a).closed hy
      obtain ⟨c, y, rfl⟩ := List.exists_cons_of_ne_nil (show y ≠ [] by simp [hy', closing])
      rw [(f a).faithful hy]
      rfl
    rw [List.append_assoc]
    exact Reader.bind_eq_some.2 ⟨a, x, y ++ v, y, hp.steady hx hmid, (hf a).steady v hy, rfl⟩

/-- A text has one front part that ends with its first closing braces. -/
theorem inner_unique {inner inner' a b : List Char} (h : '}' ∉ inner) (h' : '}' ∉ inner')
    (he : inner ++ closing ++ a = inner' ++ closing ++ b) : inner = inner' := by
  have hcut : ∀ {i : List Char} (t : List Char), '}' ∉ i →
      (i ++ closing ++ t).takeWhile (· != '}') = i := by
    intro i t hi
    rw [List.append_assoc, List.takeWhile_append_of_pos]
    · simp [closing]
    · intro c hc
      have : c ≠ '}' := fun h => hi (h ▸ hc)
      simpa using this
  rw [← hcut a h, he, hcut b h']

/-- Two readers of whole tags can be tried one after the other: where both find a tag, it is the same
text they find. -/
theorem orElse (hp : Closing p) (hq : Closing q) : Closing (p <|> q) where
  closed hr := by
    rw [Reader.orElse_read, Option.or_eq_some_iff] at hr
    rcases hr with hr | ⟨-, hr⟩
    · exact hp.closed hr
    · exact hq.closed hr
  steady {s a front rest} v hr := by
    rw [Reader.orElse_read, Option.or_eq_some_iff] at hr ⊢
    rcases hr with hr | ⟨hn, hr⟩
    · exact .inl (hp.steady v hr)
    · refine .inr ⟨?_, hq.steady v hr⟩
      cases h : p.read (front ++ v) with
      | none => rfl
      | some x =>
        obtain ⟨b, front', rest'⟩ := x
        -- both end at the first closing braces, so that it is one text they find
        obtain ⟨inner, rfl, hin⟩ := hq.closed hr
        obtain ⟨inner', rfl, hin'⟩ := hp.closed h
        obtain rfl := inner_unique hin hin' (p.faithful h)
        have := hp.steady rest h
        rw [← q.faithful hr, hn] at this
        cases this

/-- The closing braces by themselves end a tag. -/
theorem ending (a : α) : Closing (do .exactly closing; return a : Reader α) :=
  (@exactly [] List.not_mem_nil).map fun _ => a

end Closing

/-! ### The tags -/

/-- A symbol is read where it stands first, and takes nothing else. -/
theorem symbol_eq_some {op o : Operator} : (symbol op).read s = some (o, front, rest) ↔
    o = op ∧ front = op.symbol.toList ∧ s = op.symbol.toList ++ rest := by
  rw [symbol, Reader.bind_eq_some]
  constructor
  · rintro ⟨a, x, mid, y, hx, ⟨⟩, rfl⟩
    obtain ⟨rfl, rfl⟩ := Reader.exactly_eq_some.1 hx
    exact ⟨rfl, List.append_nil _, rfl⟩
  · rintro ⟨rfl, rfl, rfl⟩
    exact ⟨(), _, _, [], Reader.exactly_eq_some.2 ⟨rfl, rfl⟩, rfl, (List.append_nil _).symm⟩

/-- A symbol is read as its operator, whatever stands behind it. No symbol begins with another one. -/
theorem operator_symbol (op : Operator) (t : List Char) :
    operator.read (op.symbol.toList ++ t) = some (op, op.symbol.toList, t) := by
  cases op <;> rfl

/-- An operator takes the characters of its symbol. -/
theorem operator_eq_some {op : Operator} (h : operator.read s = some (op, front, rest)) :
    front = op.symbol.toList := by
  simp only [operator, Reader.orElse_read, Option.or_eq_some_iff, symbol_eq_some] at h
  rcases h with ⟨rfl, rfl, -⟩ | ⟨-, ⟨rfl, rfl, -⟩ | ⟨-, ⟨rfl, rfl, -⟩ | ⟨-, rfl, rfl, -⟩⟩⟩ <;> rfl

/-- An operator is a part of a tag. -/
theorem interior_operator : Interior operator where
  unclosed {s op front rest} h := by
    rw [operator_eq_some h]
    cases op <;> decide
  steady {s op front rest v} h _ := by
    rw [operator_eq_some h, operator_symbol]

/-- An operand is read to the end of its tag, with a quote behind it or without one. -/
theorem closing_operand : Closing operand := by
  refine .bind (Interior.run rfl) fun _ => .bind (Interior.optional (by decide)) fun _ =>
    .bind (Interior.run rfl) fun cs => .orElse ?_ (.ending _)
  exact .bind (Interior.exactly (by decide)) fun _ => .bind (Interior.run rfl) fun _ => .ending _

/-- A comparison is read to the end of its tag. -/
theorem closing_comparison : Closing comparison :=
  .bind interior_operator fun _ => closing_operand.map _

/-- The opening tag of a conditional, with a comparison or without one. -/
theorem closing_condition : Closing condition.toReader :=
  .bind (Interior.exactly (by decide)) fun _ => .bind (Interior.run1 rfl) fun _ =>
    .bind (Interior.run1 rfl) fun _ => .bind (Interior.run rfl) fun _ =>
      .orElse (.ending _) (closing_comparison.map _)

/-- The opening tag of a loop. -/
theorem closing_loopKey : Closing loopKey.toReader :=
  .bind (Interior.exactly (by decide)) fun _ => .bind (Interior.run1 rfl) fun _ =>
    .bind (Interior.run1 rfl) fun _ => .ending _

/-- Placeholders. -/
theorem closing_placeholderPath : Closing placeholderPath.toReader :=
  .bind (Interior.exactly (by decide)) fun _ => .bind (Interior.run rfl) fun _ =>
    .bind (Interior.guard _) fun _ => .ending _

/-- Tags without a key. -/
theorem closing_fixed {inner : List Char} (h : '}' ∉ inner) (tag : Tag) :
    Closing (fixed (braced inner) (braced_ne_nil inner) tag).toReader :=
  (@Closing.exactly (opening ++ inner) (by simpa [opening] using h)).map _

/-- **Tags are read to their first closing braces**, and what stands behind those does not matter. -/
theorem closing_recogniser : Closing recogniser.toReader :=
  .orElse (closing_fixed (by decide) _) <| .orElse (closing_fixed (by decide) _) <|
    .orElse (closing_fixed (by decide) _) <| .orElse (closing_loopKey.map _) <|
      .orElse (closing_condition.map _) (closing_placeholderPath.map _)

end Tag

end Stencil
