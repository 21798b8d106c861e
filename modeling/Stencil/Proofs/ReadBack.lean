import Mathlib.Data.List.TakeWhile
import Stencil.Number.Decimal
import Stencil.Number.Shortest
import Stencil.Proofs.Clean
import Stencil.Proofs.Digits

/-!
# Numbers are read back

A number is written in positional notation, with the digits that `near_shortest` is about. Reading such a
text gives the decimal it was made of, with the point somewhere else perhaps, and that decimal is read as
the number.

* `unsigned?_positional`: a decimal in positional notation is read as itself.
* `ofText?_text`: every number is read back from its text, signed zeros, infinities and what is no
  number included.
-/

namespace Stencil.Number

variable {m : Nat} {e : Int} {s t : List Char}

/-! ### Reading digits -/

/-- The value of digits in a row. -/
theorem ofDigits_append (s t : List Char) :
    ofDigits (s ++ t) = ofDigits s * 10 ^ t.length + ofDigits t := by
  have hfold : ∀ n, t.foldl (fun n c => 10 * n + digitValue c) n = n * 10 ^ t.length + ofDigits t := by
    induction t with
    | nil => intro n; simp [ofDigits]
    | cons c t ih =>
      intro n
      rw [ofDigits, List.foldl_cons, List.foldl_cons, ih, ih, List.length_cons]
      ring
  rw [ofDigits, List.foldl_append, hfold]
  rfl

theorem ofDigits_replicate (n : Nat) : ofDigits (List.replicate n '0') = 0 := by
  induction n with
  | zero => rfl
  | succ n ih => rwa [List.replicate_succ]

/-- A number is read back from its digits. -/
theorem ofDigits_repr (n : Nat) : ofDigits n.repr.toList = n := by
  rw [Nat.toList_repr]
  exact Nat.ofDigitChars_toDigits (by norm_num) (by norm_num)

/-- Digits with no point are a whole number. -/
theorem unsigned?_whole (negative : Bool) (hs : ∀ c ∈ s, c.isDigit = true) (hne : s ≠ []) :
    unsigned? negative s = some (ofDecimal negative (ofDigits s) 0) := by
  have htake : s.takeWhile Char.isDigit = s := List.takeWhile_eq_self_iff.2 hs
  have hdrop : s.dropWhile Char.isDigit = [] := List.dropWhile_eq_nil_iff.2 hs
  have hempty : s.isEmpty = false := by rwa [List.isEmpty_eq_false_iff]
  simp [unsigned?, htake, hdrop, fraction, exponent?, hempty]

/-- Digits with a point among them. -/
theorem unsigned?_point (negative : Bool) (hs : ∀ c ∈ s, c.isDigit = true) (hne : s ≠ [])
    (ht : ∀ c ∈ t, c.isDigit = true) :
    unsigned? negative (s ++ '.' :: t) = some (ofDecimal negative (ofDigits (s ++ t)) (-t.length)) := by
  have hpoint : ¬ '.'.isDigit = true := by decide
  have htake : (s ++ '.' :: t).takeWhile Char.isDigit = s := by
    rw [List.takeWhile_append_of_pos hs, List.takeWhile_cons_of_neg hpoint, List.append_nil]
  have hdrop : (s ++ '.' :: t).dropWhile Char.isDigit = '.' :: t := by
    rw [List.dropWhile_append_of_pos hs, List.dropWhile_cons_of_neg hpoint]
  have htake' : t.takeWhile Char.isDigit = t := List.takeWhile_eq_self_iff.2 ht
  have hdrop' : t.dropWhile Char.isDigit = [] := List.dropWhile_eq_nil_iff.2 ht
  have hempty : s.isEmpty = false := by rwa [List.isEmpty_eq_false_iff]
  simp [unsigned?, htake, hdrop, fraction, htake', hdrop', exponent?, hempty]

/-- Zeros behind the digits multiply the value by ten each. -/
theorem unsigned?_zeros_behind (negative : Bool) (hs : ∀ c ∈ s, c.isDigit = true) (hne : s ≠ [])
    (n : Nat) : unsigned? negative (s ++ List.replicate n '0') =
      some (ofDecimal negative (ofDigits s * 10 ^ n) 0) := by
  have hall : ∀ c ∈ s ++ List.replicate n '0', c.isDigit = true := by
    intro c hc
    rcases List.mem_append.1 hc with h | h
    · exact hs c h
    · exact isDigit_of_mem_replicate h
  rw [unsigned?_whole negative hall (List.append_ne_nil_of_left_ne_nil hne _), ofDigits_append,
    ofDigits_replicate, List.length_replicate, Nat.add_zero]

/-- A point among the digits divides the value. -/
theorem unsigned?_point_inside (negative : Bool) (hs : ∀ c ∈ s, c.isDigit = true) {n : Nat}
    (hn : 0 < n) (hle : n ≤ s.length) : unsigned? negative (s.take n ++ '.' :: s.drop n) =
      some (ofDecimal negative (ofDigits s) (-(s.length - n : Nat))) := by
  have hwhole : s.take n ≠ [] := by
    intro h
    have hlen := congrArg List.length h
    rw [List.length_take, List.length_nil] at hlen
    omega
  rw [unsigned?_point negative (fun c hc => hs c (List.mem_of_mem_take hc)) hwhole
    (fun c hc => hs c (List.mem_of_mem_drop hc)), List.take_append_drop, List.length_drop]

/-- Zeros behind the point divide it further. -/
theorem unsigned?_zeros_before (negative : Bool) (hs : ∀ c ∈ s, c.isDigit = true) (n : Nat) :
    unsigned? negative ('0' :: '.' :: List.replicate n '0' ++ s) =
      some (ofDecimal negative (ofDigits s) (-(n + s.length : Nat))) := by
  have hzero : ∀ c ∈ ['0'], c.isDigit = true := List.forall_mem_singleton.2 (by decide)
  have hpart : ∀ c ∈ List.replicate n '0' ++ s, c.isDigit = true := by
    intro c hc
    rcases List.mem_append.1 hc with h | h
    · exact isDigit_of_mem_replicate h
    · exact hs c h
  have hdigits : ofDigits (['0'] ++ (List.replicate n '0' ++ s)) = ofDigits s := by
    rw [ofDigits_append, ofDigits_append, ofDigits_replicate, show ofDigits ['0'] = 0 from rfl]
    simp
  have hread := unsigned?_point negative hzero (List.cons_ne_nil '0' []) hpart
  rwa [hdigits, List.length_append, List.length_replicate] at hread

/-- **A decimal in positional notation is read as itself**, perhaps with another exponent. -/
theorem unsigned?_positional (negative : Bool) (q : Nat) (x : Int) :
    ∃ (q' : Nat) (x' : Int), unsigned? negative (positional q x) = some (ofDecimal negative q' x') ∧
      (q' * 10 ^ x' : ℚ) = q * 10 ^ x := by
  have hdigits : ∀ c ∈ q.repr.toList, c.isDigit = true := fun c hc => isDigit_of_mem_repr hc
  have hne : q.repr.toList ≠ [] := by
    rw [Nat.toList_repr]
    exact Nat.toDigits_ne_nil
  have hq := ofDigits_repr q
  rw [positional]
  -- the point is behind the digits, among them or in front of them
  generalize q.repr.toList = ds at *
  split
  · next hx =>
    obtain ⟨n, rfl⟩ := Int.eq_ofNat_of_zero_le hx
    refine ⟨_, _, unsigned?_zeros_behind negative hdigits hne n, ?_⟩
    rw [hq]
    simp
  · next hx =>
    split
    · next hpoint =>
      refine ⟨_, _, unsigned?_point_inside negative hdigits (by omega) (by omega), ?_⟩
      rw [hq]
      congr 2
      omega
    · next hpoint =>
      refine ⟨_, _, unsigned?_zeros_before negative hdigits _, ?_⟩
      rw [hq]
      congr 2
      omega

/-! ### Texts of numbers -/

theorem splitSign_of_forall (hs : ∀ c ∈ s, c ≠ '-' ∧ c ≠ '+') : splitSign s = (false, s) := by
  unfold splitSign
  split
  · exact absurd rfl (hs '-' List.mem_cons_self).1
  · exact absurd rfl (hs '+' List.mem_cons_self).2
  · rfl

/-- The text of a positive number. -/
def digitsText (m : Nat) (e : Int) : List Char :=
  if m = 0 then ['0']
  else positional (dropZeros 17 (shortest m e).1 (shortest m e).2).1
    (dropZeros 17 (shortest m e).1 (shortest m e).2).2

theorem mem_digitsText {c : Char} (h : c ∈ digitsText m e) : c.isDigit = true ∨ c = '.' := by
  unfold digitsText at h
  split at h
  · rw [List.mem_singleton.1 h]
    exact .inl (by decide)
  · exact mem_positional h

theorem unsigned?_digitsText (negative : Bool) (hcanonical : Canonical m e) :
    unsigned? negative (digitsText m e) = some (finite negative m e hcanonical) := by
  unfold digitsText
  split
  · next hm =>
    subst hm
    obtain rfl : e = -1074 := by
      have := hcanonical.2.2.2
      rw [leastFull_eq] at this
      omega
    rfl
  · next hm =>
    obtain ⟨q, x, hread, hvalue⟩ := unsigned?_positional negative
      (dropZeros 17 (shortest m e).1 (shortest m e).2).1 (dropZeros 17 (shortest m e).1 (shortest m e).2).2
    have hnear := near_shortest hcanonical hm
    rw [← dropZeros_value 17, ← hvalue] at hnear
    rw [hread, ofDecimal_of_near negative hcanonical hm hnear]

theorem text_finite (negative : Bool) (hcanonical : Canonical m e) :
    (finite negative m e hcanonical).text =
      String.ofList (if negative then '-' :: digitsText m e else digitsText m e) := rfl

/-- **Every number is read back from its text.** -/
theorem ofText?_text (x : Number) : ofText? x.text.toList = some x := by
  cases x with
  | nan => decide
  | infinite negative => cases negative <;> decide
  | finite negative m e hcanonical =>
    have hplain : ∀ c ∈ digitsText m e, c ≠ '-' ∧ c ≠ '+' := by
      intro c hc
      rcases mem_digitsText hc with h | rfl
      · exact ⟨fun he => absurd (he ▸ h) (by decide), fun he => absurd (he ▸ h) (by decide)⟩
      · decide
    rw [text_finite, String.toList_ofList, ofText?]
    cases negative with
    | false =>
      rw [if_neg Bool.false_ne_true, splitSign_of_forall hplain]
      simp only [unsigned?_digitsText false hcanonical]
      rfl
    | true =>
      have hsign : splitSign ('-' :: digitsText m e) = (true, digitsText m e) := rfl
      rw [if_pos rfl, hsign]
      simp only [unsigned?_digitsText true hcanonical]
      rfl

end Stencil.Number
