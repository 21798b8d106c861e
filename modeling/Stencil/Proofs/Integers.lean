import Stencil.Data.Value
import Stencil.Proofs.ReadBack

/-!
# Texts of integers

A number that is an integer below `2 ^ 53` is written as that integer, with no point and no exponent. Its unit
is one at most, so that no other integer is in its interval: the search stops at a multiple of a power of
ten, and the only one that reads back is the number itself.

* `Near.eq_of_integer`: the one integer in the interval.
* `shortest_of_integer`: the decimal that is printed is an integer.
* `digitsText_of_integer`, `Value.display_of_integer`: the texts.
-/

namespace Stencil

namespace Number

variable {m n : Nat} {e x : Int}

/-- The exponent of an integer that has at most 53 bits is not positive. -/
theorem exponent_of_integer (hcanonical : Canonical m e) (hvalue : (m * 2 ^ e : ℚ) = n)
    (hn : n < 2 ^ 53) : e ≤ 0 := by
  obtain ⟨-, hmin, -, hfull⟩ := hcanonical
  by_contra he
  rw [leastFull_eq] at hfull
  have hm : (2 : ℚ) ^ 52 ≤ m := by exact_mod_cast hfull.resolve_right (by omega)
  have htwo : (2 : ℚ) ^ (1 : Int) ≤ 2 ^ e := zpow_le_zpow_right₀ (by norm_num) (by omega)
  have hn' : (n : ℚ) < 2 ^ 53 := by exact_mod_cast hn
  rw [zpow_one] at htwo
  nlinarith

/-- **The one integer in the interval** of an integer is itself. -/
theorem Near.eq_of_integer (hcanonical : Canonical m e) (hm : m ≠ 0) (hvalue : (m * 2 ^ e : ℚ) = n)
    (hn : n < 2 ^ 53) {i : Nat} (h : Near m e i) : i = n := by
  have he := exponent_of_integer hcanonical hvalue hn
  have hunit : (2 : ℚ) ^ e ≤ 2 ^ (0 : Int) := zpow_le_zpow_right₀ (by norm_num) he
  rw [zpow_zero] at hunit
  have hlow : (n : ℚ) - 1 < i := by linarith [h.low, le_two_mul_lowest hm e, hvalue]
  have hhigh : (i : ℚ) < n + 1 := by linarith [h.high, two_mul_highest m e, hvalue]
  have hlow' : n < i + 1 := by
    have : (n : ℚ) < i + 1 := by linarith
    exact_mod_cast this
  have hhigh' : i < n + 1 := by exact_mod_cast hhigh
  omega

theorem integer_ne_zero (hm : m ≠ 0) (hvalue : (m * 2 ^ e : ℚ) = n) : n ≠ 0 := by
  rintro rfl
  have hpos := mul_pos (show (0 : ℚ) < m by exact_mod_cast Nat.pos_of_ne_zero hm) (two_zpow_pos e)
  rw [hvalue] at hpos
  exact lt_irrefl _ (by exact_mod_cast hpos)

/-- The search begins at the first digit of an integer. -/
theorem leadingPower_of_integer (hvalue : (m * 2 ^ e : ℚ) = n) (hne : n ≠ 0) :
    leadingPower (fractionOf m e).1 (fractionOf m e).2 = ((n.repr.length - 1 : Nat) : Int) := by
  have hden := fractionOf_snd_pos m e
  have hdiv := fractionOf_div m e
  rw [hvalue, div_eq_iff (by exact_mod_cast hden.ne')] at hdiv
  have hnum : (fractionOf m e).1 = n * (fractionOf m e).2 := by exact_mod_cast hdiv
  have hle : (fractionOf m e).2 ≤ (fractionOf m e).1 := by
    rw [hnum]
    exact Nat.le_mul_of_pos_left _ (Nat.pos_of_ne_zero hne)
  have hlen : 0 < n.repr.length := by
    rw [← String.length_toList, Nat.toList_repr]
    exact Nat.length_toDigits_pos
  rw [leadingPower, if_pos hle, hnum, Nat.mul_div_cancel _ hden]
  omega

/-- The decimal that is printed for an integer is one. -/
theorem shortest_of_integer (hcanonical : Canonical m e) (hm : m ≠ 0) (hvalue : (m * 2 ^ e : ℚ) = n)
    (hn : n < 2 ^ 53) : 0 ≤ (shortest m e).2 ∧ (shortest m e).1 * 10 ^ (shortest m e).2 = (n : ℚ) := by
  have hleading := leadingPower_of_integer hvalue (integer_ne_zero hm hvalue)
  have hlength : n.repr.length - 1 ≤ 16 := by
    have hdigits : (Nat.toDigits 10 n).length ≤ 16 :=
      (Nat.length_toDigits_le_iff (by norm_num) (by norm_num)).2 (hn.trans (by norm_num))
    rw [← String.length_toList, Nat.toList_repr]
    omega
  -- on the grid of the integers the number is its own lower neighbour
  have hself : Near m e (quotient m e 0 * 10 ^ (0 : Int)) := by
    obtain ⟨hle, hlt⟩ := quotient_spec m e 0
    rw [zpow_zero, mul_one, hvalue] at hle hlt
    have hquotient : quotient m e 0 = n := by
      have : quotient m e 0 ≤ n := by exact_mod_cast hle
      have : n < quotient m e 0 + 1 := by exact_mod_cast hlt
      omega
    rw [hquotient, zpow_zero, mul_one, ← hvalue]
    exact near_of_between (lowest_lt hm e) (lt_highest m e)
  obtain ⟨hfound, hleast⟩ := exists_shortest hlength (by
    rw [hleading, sub_self]
    exact exists_neighbour_of_near (.inl hself))
  rw [hleading, sub_self] at hleast
  obtain ⟨k, hk⟩ := Int.eq_ofNat_of_zero_le hleast
  have hnear := near_of_neighbour? hfound
  have hcast : (((shortest m e).1 * 10 ^ k : Nat) : ℚ) = (shortest m e).1 * 10 ^ (shortest m e).2 := by
    rw [hk]
    push_cast
    rfl
  rw [← hcast] at hnear ⊢
  exact ⟨hleast, by exact_mod_cast hnear.eq_of_integer hcanonical hm hvalue hn⟩

/-! ### Texts -/

theorem repr_mul_ten_pow (hn : n ≠ 0) (k : Nat) :
    (n * 10 ^ k).repr.toList = n.repr.toList ++ List.replicate k '0' := by
  induction k with
  | zero => simp
  | succ k ih =>
    have hpos : 0 < n * 10 ^ k := Nat.mul_pos (Nat.pos_of_ne_zero hn) (Nat.pow_pos (by norm_num))
    have hdigits := Nat.toDigits_append_toDigits (b := 10) (d := 0) (by norm_num) hpos (by norm_num)
    rw [Nat.toList_repr] at ih ⊢
    rw [show n * 10 ^ (k + 1) = 10 * (n * 10 ^ k) + 0 by ring, ← hdigits, ih, Nat.toList_repr,
      List.replicate_succ', List.append_assoc]
    rfl

theorem positional_of_nonneg {q : Nat} (hq : q ≠ 0) (k : Nat) :
    positional q k = (q * 10 ^ k).repr.toList := by
  rw [repr_mul_ten_pow hq, positional, if_pos (Int.natCast_nonneg k)]
  rfl

/-- **An integer is written as one.** -/
theorem digitsText_of_integer (hcanonical : Canonical m e) (hvalue : (m * 2 ^ e : ℚ) = n)
    (hn : n < 2 ^ 53) : digitsText m e = n.repr.toList := by
  unfold digitsText
  split
  · next hm =>
    rw [hm, Nat.cast_zero, zero_mul] at hvalue
    obtain rfl : n = 0 := by exact_mod_cast hvalue.symm
    rfl
  · next hm =>
    obtain ⟨hleast, hshortest⟩ := shortest_of_integer hcanonical hm hvalue hn
    have hdrop := dropZeros_value 17 (shortest m e).1 (shortest m e).2
    have hexponent := hleast.trans (le_dropZeros 17 (shortest m e).1 (shortest m e).2)
    rw [hshortest] at hdrop
    generalize dropZeros 17 (shortest m e).1 (shortest m e).2 = decimal at *
    obtain ⟨q, x⟩ := decimal
    obtain ⟨k, rfl⟩ := Int.eq_ofNat_of_zero_le hexponent
    -- without zeros at their end the digits still have the value, and no point is needed
    have hdigits : q * 10 ^ k = n := by
      rw [zpow_natCast] at hdrop
      exact_mod_cast hdrop
    have hq : q ≠ 0 := by
      rintro rfl
      exact integer_ne_zero hm hvalue (by rw [← hdigits, Nat.zero_mul])
    rw [← hdigits]
    exact positional_of_nonneg hq k

end Number

/-- **Integers are shown without a point**, and zero without its sign. -/
theorem Value.display_of_integer (negative : Bool) {m n : Nat} {e : Int}
    (hcanonical : Number.Canonical m e) (hvalue : (m * 2 ^ e : ℚ) = n) (hn : n < 2 ^ 53) :
    display (number (.finite negative m e hcanonical)) =
      (if negative = true then -(n : Int) else n).repr := by
  by_cases hm : m = 0
  · subst hm
    rw [Nat.cast_zero, zero_mul] at hvalue
    obtain rfl : n = 0 := by exact_mod_cast hvalue.symm
    cases negative <;> rfl
  · obtain ⟨k, rfl⟩ := Nat.exists_eq_succ_of_ne_zero (Number.integer_ne_zero hm hvalue)
    have htext := Number.digitsText_of_integer hcanonical hvalue hn
    have hzero : ¬ (Number.finite negative m e hcanonical).isZero = true := by
      simpa [Number.isZero] using hm
    rw [display, if_neg hzero, Number.text_finite, htext]
    cases negative with
    | false => exact String.ofList_toList
    | true =>
      have hsign : '-' :: (k + 1).repr.toList = ("-" ++ (k + 1).repr).toList := by
        rw [String.toList_append]
        rfl
      rw [if_pos rfl, hsign, String.ofList_toList]
      rfl

end Stencil
