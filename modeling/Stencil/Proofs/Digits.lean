import Mathlib.Algebra.Order.Field.Basic
import Stencil.Number.Decimal
import Stencil.Number.Shortest
import Stencil.Proofs.Rounding

/-!
# The digits of a number

The decimal that is printed for a number lies in the interval of the fractions that round to it. The search
for it tests exactly that, and it finds one: on the grid of decimals with seventeen digits the step
is smaller than the interval, so that one of the two neighbours of the number is inside.

* `readsBack_iff`: the test of the search is membership in the interval.
* `exists_neighbour`: seventeen digits suffice.
* `exists_shortest`: where the search stops.
* `near_shortest`: the decimal that is printed is in the interval.
* `ofDecimal_of_near`: a decimal in the interval of a number is read as that number.
-/

namespace Stencil.Number

variable {m q num den : Nat} {e x : Int}

/-! ### Powers of ten -/

/-- The powers of ten on the two sides of a fraction come to one. -/
theorem pow_div_pow (a b : Nat) (x : Int) :
    ((a * Nat.pow 10 x.toNat : Nat) : ℚ) / (b * Nat.pow 10 (-x).toNat : Nat) = a / b * 10 ^ x := by
  rw [Nat.pow_eq, Nat.pow_eq]
  push_cast
  rcases Int.le_total 0 x with hx | hx
  · obtain ⟨n, rfl⟩ := Int.eq_ofNat_of_zero_le hx
    simp
    ring
  · obtain ⟨n, hn⟩ := Int.eq_ofNat_of_zero_le (Int.neg_nonneg.2 hx)
    obtain rfl : x = -n := by omega
    simp
    field_simp

theorem ten_zpow_pos (x : Int) : (0 : ℚ) < 10 ^ x := zpow_pos (by norm_num) x

theorem cast_pow_ten (n : Nat) : ((Nat.pow 10 n : Nat) : ℚ) = 10 ^ (n : Int) := by
  rw [Nat.pow_eq, Nat.cast_pow, zpow_natCast, Nat.cast_ofNat]

/-- Ten to the seventh is more than two to the twenty-third. -/
theorem two_zpow_le_ten_zpow (n : Nat) {x : Int} (he : e ≤ 23 * n) (hx : 7 * n ≤ x) :
    (2 : ℚ) ^ e ≤ 10 ^ x := by
  have hbase : (2 : ℚ) ^ (23 : Int) ≤ 10 ^ (7 : Int) := by norm_num
  calc (2 : ℚ) ^ e ≤ 2 ^ (23 * n : Int) := zpow_le_zpow_right₀ (by norm_num) he
    _ = ((2 : ℚ) ^ (23 : Int)) ^ n := by rw [zpow_mul, zpow_natCast]
    _ ≤ ((10 : ℚ) ^ (7 : Int)) ^ n := pow_le_pow_left₀ (two_zpow_pos 23).le hbase n
    _ = 10 ^ (7 * n : Int) := by rw [zpow_mul, zpow_natCast]
    _ ≤ 10 ^ x := zpow_le_zpow_right₀ (by norm_num) hx

theorem ten_zpow_le_two_zpow (n : Nat) {x : Int} (he : -(23 * n) ≤ e) (hx : x ≤ -(7 * n)) :
    (10 : ℚ) ^ x ≤ 2 ^ e := by
  have h := inv_anti₀ (two_zpow_pos (-e)) (two_zpow_le_ten_zpow n (e := -e) (x := -x) (by omega) (by omega))
  rwa [← zpow_neg, ← zpow_neg, neg_neg, neg_neg] at h

/-- What is near a number other than zero is not zero. -/
theorem Near.digits_ne_zero (hm : m ≠ 0) (h : Near m e (q * 10 ^ x)) : q ≠ 0 := by
  rintro rfl
  have hpos := h.pos hm
  simp at hpos

/-- A decimal near a number is not so large that it is told apart before its power of ten is computed. -/
theorem Near.exponent_le (hcanonical : Canonical m e) (hm : m ≠ 0) (h : Near m e (q * 10 ^ x)) :
    x ≤ 400 := by
  obtain ⟨hlt, -, hmax, -⟩ := hcanonical
  rw [leastFull_eq] at hlt
  by_contra hx
  have hq1 : (1 : ℚ) ≤ q := by exact_mod_cast Nat.one_le_iff_ne_zero.2 (h.digits_ne_zero hm)
  have hm1 : 2 * (m : ℚ) + 1 ≤ 2 ^ (54 : Int) := by exact_mod_cast (show 2 * m + 1 ≤ 2 ^ 54 by omega)
  have hten := ten_zpow_pos x
  have hv : (10 : ℚ) ^ x ≤ q * 10 ^ x := le_mul_of_one_le_left hten.le hq1
  have hu : (2 * (m : ℚ) + 1) * 2 ^ e ≤ 10 ^ x := by
    calc (2 * (m : ℚ) + 1) * 2 ^ e ≤ 2 ^ (54 : Int) * 2 ^ e :=
          mul_le_mul_of_nonneg_right hm1 (two_zpow_pos e).le
      _ = 2 ^ (54 + e) := (zpow_add₀ (by norm_num) _ _).symm
      _ ≤ 10 ^ x := two_zpow_le_ten_zpow 45 (by omega) (by omega)
  linarith [h.high, two_mul_highest m e]

/-- Nor is it so small. -/
theorem Near.le_exponent (hcanonical : Canonical m e) (hm : m ≠ 0) (h : Near m e (q * 10 ^ x)) :
    -(q.log2 + 401 : Int) ≤ x := by
  have hmin := hcanonical.2.1
  by_contra hx
  have hq2 : (q : ℚ) < 2 ^ (q.log2 + 1 : Int) := by exact_mod_cast Nat.lt_log2_self
  generalize q.log2 = l at *
  have hm1 : (1 : ℚ) ≤ 2 * m - 1 := by
    have : (1 : ℚ) ≤ m := by exact_mod_cast Nat.one_le_iff_ne_zero.2 hm
    linarith
  have hl : (2 : ℚ) ^ (l + 1 : Int) ≤ 10 ^ (l + 1 : Int) := by
    exact_mod_cast pow_le_pow_left₀ (by norm_num : (0 : ℚ) ≤ 2) (by norm_num : (2 : ℚ) ≤ 10) (l + 1)
  -- the decimal would be smaller than whatever it could be near
  have hv : (q : ℚ) * 10 ^ x < 10 ^ (-359 : Int) := by
    calc (q : ℚ) * 10 ^ x < 10 ^ (l + 1 : Int) * 10 ^ x :=
          mul_lt_mul_of_pos_right (by linarith) (ten_zpow_pos x)
      _ = 10 ^ (l + 1 + x) := (zpow_add₀ (by norm_num) _ _).symm
      _ ≤ 10 ^ (-359 : Int) := zpow_le_zpow_right₀ (by norm_num) (by omega)
  have hlow : 2 * (10 : ℚ) ^ (-359 : Int) ≤ (2 * m - 1) * 2 ^ e := by
    calc 2 * (10 : ℚ) ^ (-359 : Int) ≤ 2 * 2 ^ (-1075 : Int) := by
          have := ten_zpow_le_two_zpow 47 (e := -1075) (x := -359) (by norm_num) (by norm_num)
          linarith
      _ = 2 ^ (-1074 : Int) := by
          rw [show (-1074 : Int) = -1075 + 1 by norm_num, zpow_add_one₀ (by norm_num), mul_comm]
      _ ≤ 2 ^ e := zpow_le_zpow_right₀ (by norm_num) hmin
      _ ≤ (2 * m - 1) * 2 ^ e := le_mul_of_one_le_left (two_zpow_pos e).le hm1
  linarith [h.low, le_two_mul_lowest hm e]

/-- **A decimal near a number is read as it.** -/
theorem ofDecimal_of_near (negative : Bool) (hcanonical : Canonical m e) (hm : m ≠ 0)
    (h : Near m e (q * 10 ^ x)) : ofDecimal negative q x = finite negative m e hcanonical := by
  have hlarge := h.exponent_le hcanonical hm
  have hsmall := h.le_exponent hcanonical hm
  have hdiv := pow_div_pow q 1 x
  rw [Nat.one_mul, Nat.cast_one, div_one] at hdiv
  rw [ofDecimal, if_neg (h.digits_ne_zero hm), if_neg (by omega), if_neg (by push_cast; omega)]
  refine round_of_near negative hcanonical hm (Nat.pow_pos (by norm_num)) ?_
  rwa [hdiv]

/-! ### The shortest decimal -/

/-- The fraction has the value of the number. -/
theorem fractionOf_div (m : Nat) (e : Int) :
    ((fractionOf m e).1 : ℚ) / (fractionOf m e).2 = m * 2 ^ e := by
  have h := shiftLeft_div_shiftLeft m 1 e
  rwa [Nat.cast_one, div_one] at h

theorem fractionOf_snd_pos (m : Nat) (e : Int) : 0 < (fractionOf m e).2 := by
  simp only [fractionOf, Nat.shiftLeft_eq, Nat.one_mul]
  exact Nat.two_pow_pos _

/-- A number of quarters and a decimal, over one denominator. -/
theorem over_one_denominator (e x : Int) : ∃ k : ℚ, 0 < k ∧
    (∀ n : Nat, ((n * (Nat.pow 10 (-x).toNat * (fractionOf 1 (e - 2)).1) : Nat) : ℚ) =
      n * 2 ^ (e - 2) * k) ∧
    ∀ q : Nat, ((q * Nat.pow 10 x.toNat * (fractionOf 1 (e - 2)).2 : Nat) : ℚ) = q * 10 ^ x * k := by
  have htwo := fractionOf_div 1 (e - 2)
  rw [Nat.cast_one, one_mul] at htwo
  have hb := fractionOf_snd_pos 1 (e - 2)
  have hd : 0 < Nat.pow 10 (-x).toNat := Nat.pow_pos (by norm_num)
  have hten : ∀ q : Nat, ((q * Nat.pow 10 x.toNat : Nat) : ℚ) / (Nat.pow 10 (-x).toNat : Nat) =
      q * 10 ^ x := by
    intro q
    have h := pow_div_pow q 1 x
    rwa [Nat.cast_one, div_one, Nat.one_mul] at h
  generalize (fractionOf 1 (e - 2)).1 = a at *
  generalize (fractionOf 1 (e - 2)).2 = b at *
  generalize Nat.pow 10 (-x).toNat = d at *
  have hb' : (0 : ℚ) < b := by exact_mod_cast hb
  have hd' : (0 : ℚ) < d := by exact_mod_cast hd
  refine ⟨b * d, mul_pos hb' hd', fun n => ?_, fun q => ?_⟩
  · rw [← htwo]
    push_cast
    field_simp
  · rw [← hten, Nat.cast_mul _ b]
    field_simp

/-- **The test for the interval is exact.** -/
theorem readsBack_iff (m : Nat) (e : Int) (q : Nat) (x : Int) :
    readsBack m e q x = true ↔ Near m e (q * 10 ^ x) := by
  obtain ⟨k, hk, hend, hvalue⟩ := over_one_denominator e x
  have hle : ∀ {i j : Nat} {u v : ℚ}, (i : ℚ) = u * k → (j : ℚ) = v * k → (i ≤ j ↔ u ≤ v) := by
    intro i j u v hi hj
    rw [← mul_le_mul_iff_left₀ hk, ← hi, ← hj, Nat.cast_le]
  have hlt : ∀ {i j : Nat} {u v : ℚ}, (i : ℚ) = u * k → (j : ℚ) = v * k → (i < j ↔ u < v) := by
    intro i j u v hi hj
    rw [← mul_lt_mul_iff_left₀ hk, ← hi, ← hj, Nat.cast_lt]
  have hlow := hend (rounding m e).1
  have hhigh := hend (rounding m e).2.1
  have hdecimal := hvalue q
  have hclosed : (rounding m e).2.2 = (m % 2 == 0) := rfl
  unfold readsBack
  simp only [hclosed]
  by_cases heven : m % 2 = 0
  · rw [if_pos (by simpa using heven), Bool.and_eq_true, decide_eq_true_eq, decide_eq_true_eq,
      hle hlow hdecimal, hle hdecimal hhigh]
    exact ⟨fun h => ⟨h.1, h.2, fun hodd => absurd hodd (by omega)⟩, fun h => ⟨h.low, h.high⟩⟩
  · rw [if_neg (by simpa using heven), Bool.and_eq_true, decide_eq_true_eq, decide_eq_true_eq,
      hlt hlow hdecimal, hlt hdecimal hhigh]
    exact ⟨fun h => near_of_between h.1 h.2, fun h => h.tie (by omega)⟩

/-- The number lies above the lower end. -/
theorem lowest_lt (hm : m ≠ 0) (e : Int) : lowest m e < m * 2 ^ e := by
  have h := four_mul_lowest hm e
  have hpos := two_zpow_pos e
  split at h <;> linarith

/-- The number lies below the upper end. -/
theorem lt_highest (m : Nat) (e : Int) : m * 2 ^ e < highest m e := by
  have h := two_mul_highest m e
  have hpos := two_zpow_pos e
  linarith

/-- Seventeen digits are finer than the interval is wide. -/
theorem lt_highest_sub_lowest (hcanonical : Canonical m e) (hm : m ≠ 0)
    (hx : 10 ^ 16 * 10 ^ x ≤ (m * 2 ^ e : ℚ)) : (10 : ℚ) ^ x < highest m e - lowest m e := by
  have hlow := four_mul_lowest hm e
  have hhigh := two_mul_highest m e
  have hpos := two_zpow_pos e
  have hlt : (m : ℚ) < 2 ^ 53 := by
    have h := hcanonical.1
    rw [leastFull_eq] at h
    exact_mod_cast (show m < 2 ^ 53 by omega)
  split at hlow
  · next h =>
    have hfull : (m : ℚ) = 2 ^ 52 := by exact_mod_cast h.1.trans leastFull_eq
    rw [hfull] at hx hlow hhigh
    linarith
  · have := mul_lt_mul_of_pos_right hlt hpos
    linarith

/-- The lower neighbour of a number on the grid of the multiples of `10 ^ x`, which the search starts
from. -/
def quotient (m : Nat) (e x : Int) : Nat :=
  (fractionOf m e).1 * Nat.pow 10 (-x).toNat / ((fractionOf m e).2 * Nat.pow 10 x.toNat)

/-- The number lies between its two neighbours. -/
theorem quotient_spec (m : Nat) (e x : Int) :
    (quotient m e x * 10 ^ x ≤ (m * 2 ^ e : ℚ)) ∧
      (m * 2 ^ e : ℚ) < ((quotient m e x + 1 : Nat) : ℚ) * 10 ^ x := by
  have hdiv := pow_div_pow (fractionOf m e).1 (fractionOf m e).2 (-x)
  rw [neg_neg, fractionOf_div, zpow_neg, ← div_eq_mul_inv] at hdiv
  have hden : 0 < (fractionOf m e).2 * Nat.pow 10 x.toNat :=
    Nat.mul_pos (fractionOf_snd_pos m e) (Nat.pow_pos (by norm_num))
  have hden' : (0 : ℚ) < ((fractionOf m e).2 * Nat.pow 10 x.toNat : Nat) := by exact_mod_cast hden
  rw [← le_div_iff₀ (ten_zpow_pos x), ← div_lt_iff₀ (ten_zpow_pos x), ← hdiv, le_div_iff₀ hden',
    div_lt_iff₀ hden']
  constructor
  · exact_mod_cast Nat.div_mul_le_self _ _
  · exact_mod_cast Nat.lt_mul_of_div_lt (Nat.lt_succ_self _) hden

/-- A neighbour that is chosen is near the number. -/
theorem near_of_neighbour? (h : neighbour? m e x = some q) : Near m e (q * 10 ^ x) := by
  rw [← readsBack_iff]
  simp only [neighbour?] at h
  split at h
  · next hboth =>
    rw [Bool.and_eq_true] at hboth
    split at h
    · rw [← Option.some.inj h]
      exact hboth.1
    · rw [← Option.some.inj h]
      exact hboth.2
  · split at h
    · next hbelow => rwa [← Option.some.inj h]
    · split at h
      · next habove => rwa [← Option.some.inj h]
      · cases h

/-- A neighbour is taken where one of the two reads back. -/
theorem exists_neighbour_of_near (h : Near m e (quotient m e x * 10 ^ x) ∨
    Near m e ((quotient m e x + 1 : Nat) * 10 ^ x)) : ∃ q, neighbour? m e x = some q := by
  rw [← readsBack_iff, ← readsBack_iff] at h
  rw [← Option.isSome_iff_exists]
  by_contra hnone
  simp only [neighbour?] at hnone
  unfold quotient at h
  grind

/-- **Seventeen digits suffice.** On a grid that fine, one of the two neighbours of a number reads back. -/
theorem exists_neighbour (hcanonical : Canonical m e) (hm : m ≠ 0)
    (hx : 10 ^ 16 * 10 ^ x ≤ (m * 2 ^ e : ℚ)) : ∃ q, neighbour? m e x = some q := by
  obtain ⟨hbelow, habove⟩ := quotient_spec m e x
  have hwidth := lt_highest_sub_lowest hcanonical hm hx
  refine exists_neighbour_of_near ?_
  by_contra hno
  rw [not_or] at hno
  have hlow : quotient m e x * 10 ^ x ≤ lowest m e := by
    by_contra hlt
    exact hno.1 (near_of_between (not_le.1 hlt) (hbelow.trans_lt (lt_highest m e)))
  have hhigh : highest m e ≤ ((quotient m e x + 1 : Nat) : ℚ) * 10 ^ x := by
    by_contra hlt
    exact hno.2 (near_of_between ((lowest_lt hm e).trans habove) (not_le.1 hlt))
  push_cast at hhigh
  linarith

/-! ### The first digit -/

/-- A number is at least the power of ten that its first digit counts. -/
theorem pow_length_repr_le {n : Nat} (hn : n ≠ 0) : 10 ^ (n.repr.length - 1) ≤ n := by
  rw [← String.length_toList, Nat.toList_repr]
  by_contra hlt
  rw [not_le] at hlt
  rcases Nat.eq_zero_or_pos ((Nat.toDigits 10 n).length - 1) with h | h
  · rw [h] at hlt
    omega
  · have := (Nat.length_toDigits_le_iff (by norm_num) h).2 hlt
    omega

/-- The first digit of a fraction that is enlarged by `k` powers of ten. -/
theorem ten_zpow_firstDigit_le (k : Nat) (hden : 0 < den) (h : (10 : ℚ) ^ (-k : Int) ≤ num / den) :
    (10 : ℚ) ^ (((num * Nat.pow 10 k / den).repr.length : Int) - (k + 1)) ≤ num / den := by
  have hden' : (0 : ℚ) < den := by exact_mod_cast hden
  have hten := ten_zpow_pos k
  have hpow := cast_pow_ten k
  generalize Nat.pow 10 k = p at *
  rw [zpow_neg, inv_le_iff_one_le_mul₀ hten, ← hpow, div_mul_eq_mul_div, one_le_div hden'] at h
  have hne : num * p / den ≠ 0 := by
    have := Nat.div_pos (show den ≤ num * p by exact_mod_cast h) hden
    omega
  have hlen : 0 < (num * p / den).repr.length := by
    rw [← String.length_toList, Nat.toList_repr]
    exact Nat.length_toDigits_pos
  rw [show ((num * p / den).repr.length : Int) - (k + 1) =
    ((num * p / den).repr.length - 1 : Nat) - k by omega, zpow_sub₀ (by norm_num), zpow_natCast, ← hpow,
    div_le_iff₀ (hpow ▸ hten), div_mul_eq_mul_div, le_div_iff₀ hden']
  exact_mod_cast (Nat.mul_le_mul_right den (pow_length_repr_le hne)).trans
    (Nat.div_mul_le_self (num * p) den)

theorem ten_zpow_leadingPower_le (hden : 0 < den) (h : (10 : ℚ) ^ (-(330 : Nat) : Int) ≤ num / den) :
    (10 : ℚ) ^ leadingPower num den ≤ num / den := by
  -- the power of ten stays closed where its exponent is a variable
  obtain ⟨k, hk⟩ : ∃ k : Nat, k = 330 := ⟨330, rfl⟩
  rw [← hk] at h
  rw [leadingPower, ← hk]
  split
  · next hle =>
    have hone : (10 : ℚ) ^ (-(0 : Nat) : Int) ≤ num / den := by
      rw [Nat.cast_zero, neg_zero, zpow_zero, one_le_div (by exact_mod_cast hden)]
      exact_mod_cast hle
    simpa using ten_zpow_firstDigit_le 0 hden hone
  · have hfirst := ten_zpow_firstDigit_le k hden h
    rwa [show (k + 1 : Int) = 331 by omega] at hfirst

/-! ### The decimal that is printed -/

/-- The search stops where a neighbour reads back, or with fewer digits. -/
theorem exists_shortest {n : Nat} (hn : n ≤ 16)
    (h : ∃ q, neighbour? m e (leadingPower (fractionOf m e).1 (fractionOf m e).2 - n) = some q) :
    neighbour? m e (shortest m e).2 = some (shortest m e).1 ∧
      leadingPower (fractionOf m e).1 (fractionOf m e).2 - n ≤ (shortest m e).2 := by
  set top := leadingPower (fractionOf m e).1 (fractionOf m e).2 with htop
  set found : Nat → Option (Nat × Int) := fun i =>
    (neighbour? m e (top - i)).map fun q => (q, top - (i : Int)) with hfound
  -- there is something to be found, so that the search does not run out
  have hsome : ((List.range (n + 1)).findSome? found).isSome = true := by
    rw [List.findSome?_isSome_iff]
    refine ⟨n, List.mem_range.2 (Nat.lt_succ_self n), ?_⟩
    obtain ⟨q, hq⟩ := h
    rw [hfound, Option.isSome_map, hq]
    rfl
  obtain ⟨⟨q, x⟩, hqx⟩ := Option.isSome_iff_exists.1 hsome
  -- what is found first is found in the front part of the search
  have hrange : List.range 17 = List.range (n + 1) ++ (List.range (16 - n)).map (n + 1 + ·) := by
    rw [← List.range_add]
    congr 1
    omega
  have hshortest : shortest m e = (q, x) := by
    have hunfold : shortest m e = ((List.range 17).findSome? found).getD (0, 0) := rfl
    rw [hunfold, hrange, List.findSome?_append, hqx]
    rfl
  obtain ⟨i, hi, hfi⟩ := List.exists_of_findSome?_eq_some hqx
  obtain ⟨q', hq', he⟩ := Option.map_eq_some_iff.1 hfi
  obtain ⟨rfl, rfl⟩ := Prod.mk.inj he
  have hle := List.mem_range.1 hi
  rw [hshortest]
  exact ⟨hq', by simp only; omega⟩

/-- **The digits of a number read back as it.** -/
theorem near_shortest (hcanonical : Canonical m e) (hm : m ≠ 0) :
    Near m e ((shortest m e).1 * 10 ^ (shortest m e).2) := by
  have hsize : (10 : ℚ) ^ (-(330 : Nat) : Int) ≤ m * 2 ^ e := by
    have hm1 : (1 : ℚ) ≤ m := by exact_mod_cast Nat.one_le_iff_ne_zero.2 hm
    have hpow : (10 : ℚ) ^ (-(330 : Nat) : Int) ≤ 2 ^ e :=
      ten_zpow_le_two_zpow 47 (by have := hcanonical.2.1; omega) (by norm_num)
    exact hpow.trans (le_mul_of_one_le_left (two_zpow_pos e).le hm1)
  have htop : (10 : ℚ) ^ leadingPower (fractionOf m e).1 (fractionOf m e).2 ≤ m * 2 ^ e := by
    rw [← fractionOf_div]
    exact ten_zpow_leadingPower_le (fractionOf_snd_pos m e) (by rwa [fractionOf_div])
  have hgrid : 10 ^ 16 * 10 ^ (leadingPower (fractionOf m e).1 (fractionOf m e).2 - (16 : Nat)) ≤
      (m * 2 ^ e : ℚ) := by
    rwa [zpow_sub₀ (by norm_num), zpow_natCast, mul_div_cancel₀ _ (by norm_num)]
  exact near_of_neighbour? (exists_shortest le_rfl (exists_neighbour hcanonical hm hgrid)).1

/-- Dropping zeros keeps the value. -/
theorem dropZeros_value (fuel digits : Nat) (x : Int) :
    ((dropZeros fuel digits x).1 : ℚ) * 10 ^ (dropZeros fuel digits x).2 = digits * 10 ^ x := by
  induction fuel generalizing digits x with
  | zero => rfl
  | succ fuel ih =>
    rw [dropZeros]
    split
    · next h =>
      have hten : (digits : ℚ) = ((digits / 10 : Nat) : ℚ) * 10 := by
        exact_mod_cast (Nat.div_mul_cancel (Nat.dvd_of_mod_eq_zero h.2)).symm
      rw [ih, zpow_add_one₀ (by norm_num), hten]
      ring_nf
    · rfl

theorem le_dropZeros (fuel digits : Nat) (x : Int) : x ≤ (dropZeros fuel digits x).2 := by
  induction fuel generalizing digits x with
  | zero => exact le_rfl
  | succ fuel ih =>
    rw [dropZeros]
    split
    · exact (by omega : x ≤ x + 1).trans (ih (digits / 10) (x + 1))
    · exact le_rfl

end Stencil.Number
