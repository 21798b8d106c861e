import Mathlib.Tactic.FieldSimp
import Mathlib.Tactic.Linarith
import Mathlib.Tactic.Ring
import Stencil.Number.Shortest

/-!
# Fractions that round to a number

Around each number `m * 2 ^ e` lies the interval of the fractions that round to it (`Near`). It reaches half
a unit up and half a unit down, or a quarter down from the least number with its exponent, and its ends
belong to it where `m` is even. Rounding is exact there: it takes the exponent from the fraction, not from
the number, and comes to one bit less only where it then gets that bit back.

* `roundDiv_eq`: when a fraction is rounded to a given integer.
* `fits_exponentFor`: the exponent that rounding takes.
* `Near.exponent`: how that exponent differs from the one of the number.
* `round_of_near`: a fraction in the interval of a number rounds to it.
-/

namespace Stencil.Number

variable {m num den : Nat} {e : Int}

theorem leastFull_eq : leastFull = 2 ^ 52 := by
  rw [leastFull, Word.span, Nat.shiftLeft_eq, Nat.one_mul]

theorem two_zpow_pos (e : Int) : (0 : ℚ) < 2 ^ e := zpow_pos (by norm_num) e

/-- The shifts on the two sides of a fraction come to one power of two. -/
theorem shiftLeft_div_shiftLeft (a b : Nat) (e : Int) :
    ((a <<< e.toNat : Nat) : ℚ) / (b <<< (-e).toNat : Nat) = a / b * 2 ^ e := by
  rw [Nat.shiftLeft_eq, Nat.shiftLeft_eq]
  push_cast
  rcases Int.le_total 0 e with he | he
  · obtain ⟨n, rfl⟩ := Int.eq_ofNat_of_zero_le he
    simp
    ring
  · obtain ⟨n, hn⟩ := Int.eq_ofNat_of_zero_le (Int.neg_nonneg.2 he)
    obtain rfl : e = -n := by omega
    simp
    field_simp

theorem scale_div (num den : Nat) (e : Int) :
    ((scale num den e).1 : ℚ) / (scale num den e).2 = num / den / 2 ^ e := by
  have h := shiftLeft_div_shiftLeft num den (-e)
  rw [neg_neg, zpow_neg] at h
  rw [scale, h, div_eq_mul_inv (_ / _)]

theorem scale_snd_pos (num : Nat) (hden : 0 < den) (e : Int) : 0 < (scale num den e).2 := by
  simp only [scale, Nat.shiftLeft_eq]
  exact Nat.mul_pos hden (Nat.two_pow_pos _)

/-! ### The interval of a number -/

/-- The lower end of the interval of the fractions that round to `m * 2 ^ e`. -/
def lowest (m : Nat) (e : Int) : ℚ := (rounding m e).1 * 2 ^ (e - 2)

/-- The upper end of what is rounded to the number. -/
def highest (m : Nat) (e : Int) : ℚ := (rounding m e).2.1 * 2 ^ (e - 2)

/-- A fraction in the interval of `m * 2 ^ e`; the ends are in it where `m` is even. -/
structure Near (m : Nat) (e : Int) (v : ℚ) : Prop where
  low : lowest m e ≤ v
  high : v ≤ highest m e
  tie : m % 2 = 1 → lowest m e < v ∧ v < highest m e

theorem near_of_between {v : ℚ} (hlow : lowest m e < v) (hhigh : v < highest m e) : Near m e v :=
  ⟨hlow.le, hhigh.le, fun _ => ⟨hlow, hhigh⟩⟩

theorem four_mul_quarter (e : Int) : (4 : ℚ) * 2 ^ (e - 2) = 2 ^ e := by
  rw [show (4 : ℚ) = 2 ^ (2 : Int) by norm_num, ← zpow_add₀ (by norm_num)]
  congr 1
  omega

theorem four_mul_lowest (hm : m ≠ 0) (e : Int) : 4 * lowest m e =
    (if m = leastFull ∧ -1074 < e then 4 * (m : ℚ) - 1 else 4 * m - 2) * 2 ^ e := by
  have hm1 : 1 ≤ m := Nat.one_le_iff_ne_zero.2 hm
  have hcast : ((rounding m e).1 : ℚ) =
      if m = leastFull ∧ -1074 < e then 4 * (m : ℚ) - 1 else 4 * m - 2 := by
    simp only [rounding]
    split
    · rw [Nat.cast_sub (by omega)]
      push_cast
      rfl
    · rw [Nat.cast_sub (by omega)]
      push_cast
      rfl
  rw [lowest, hcast, ← four_mul_quarter e]
  ring

theorem two_mul_highest (m : Nat) (e : Int) : 2 * highest m e = (2 * m + 1) * 2 ^ e := by
  have hcast : ((rounding m e).2.1 : ℚ) = 4 * m + 2 := by
    simp only [rounding]
    push_cast
    rfl
  rw [highest, hcast, ← four_mul_quarter e]
  ring

/-- The interval reaches down by half a unit at most. -/
theorem le_two_mul_lowest (hm : m ≠ 0) (e : Int) : (2 * m - 1) * 2 ^ e ≤ 2 * lowest m e := by
  have h := four_mul_lowest hm e
  have hpos := two_zpow_pos e
  split at h <;> linarith

/-- The least number with its exponent has a unit of half the size below it. -/
theorem four_mul_lowest_of_leastFull (hm : m = leastFull) (he : -1074 < e) :
    4 * lowest m e = (4 * m - 1) * 2 ^ e := by
  have hm0 : m ≠ 0 := by rw [hm, leastFull_eq]; norm_num
  rw [four_mul_lowest hm0, if_pos ⟨hm, he⟩]

theorem Near.pos {v : ℚ} (h : Near m e v) (hm : m ≠ 0) : 0 < v := by
  have hm1 : (1 : ℚ) ≤ m := by exact_mod_cast Nat.one_le_iff_ne_zero.2 hm
  have hunit := mul_le_mul_of_nonneg_right (show (1 : ℚ) ≤ 2 * m - 1 by linarith) (two_zpow_pos e).le
  linarith [h.low, le_two_mul_lowest hm e, two_zpow_pos e]

/-! ### Rounding -/

/-- Rounding to the nearest integer, the even one of two. -/
theorem roundDiv_eq_of_le {n : Nat} (hden : 0 < den) (hlow : 2 * (n * den) ≤ 2 * num + den)
    (hhigh : 2 * num ≤ 2 * (n * den) + den)
    (htie : n % 2 = 1 → 2 * (n * den) < 2 * num + den ∧ 2 * num < 2 * (n * den) + den) :
    roundDiv num den = n := by
  have hdiv := Nat.div_add_mod num den
  have hmod := Nat.mod_lt num hden
  -- the quotient without its fraction is the result, or one less
  have hle : num / den ≤ n := by
    by_contra hlt
    have := Nat.mul_le_mul_left den (show n + 1 ≤ num / den by omega)
    rw [Nat.mul_add, Nat.mul_comm den n] at this
    omega
  have hge : n ≤ num / den + 1 := by
    by_contra hlt
    have := Nat.mul_le_mul_left den (show num / den + 2 ≤ n by omega)
    rw [Nat.mul_add, Nat.mul_comm den n] at this
    omega
  unfold roundDiv
  simp only
  rcases (show n = num / den ∨ n = num / den + 1 by omega) with he | he
  · rw [he, Nat.mul_comm _ den] at hlow hhigh
    rw [if_neg, he]
    rintro (hlt | ⟨heq, hodd⟩)
    · omega
    · have := (htie (by omega)).2
      rw [he, Nat.mul_comm _ den] at this
      omega
  · rw [he, Nat.add_mul, Nat.mul_comm _ den, Nat.one_mul] at hlow hhigh
    rw [if_pos, he]
    by_cases hlt : den < 2 * (num % den)
    · exact .inl hlt
    · refine .inr ⟨by omega, ?_⟩
      by_contra heven
      have := (htie (by omega)).1
      rw [he, Nat.add_mul, Nat.mul_comm _ den, Nat.one_mul] at this
      omega

theorem roundDiv_eq {n : Nat} (hden : 0 < den) (hlow : 2 * (n : ℚ) - 1 ≤ 2 * (num / den))
    (hhigh : 2 * (num / den) ≤ 2 * (n : ℚ) + 1)
    (htie : n % 2 = 1 → 2 * (n : ℚ) - 1 < 2 * (num / den) ∧ 2 * (num / den) < 2 * (n : ℚ) + 1) :
    roundDiv num den = n := by
  have hpos : (0 : ℚ) < den := by exact_mod_cast hden
  rw [← mul_div_assoc, le_div_iff₀ hpos] at hlow
  rw [← mul_div_assoc, div_le_iff₀ hpos] at hhigh
  refine roundDiv_eq_of_le hden ?_ ?_ fun hodd => ?_
  · have : 2 * ((n : ℚ) * den) ≤ 2 * num + den := by linarith
    exact_mod_cast this
  · have : 2 * (num : ℚ) ≤ 2 * (n * den) + den := by linarith
    exact_mod_cast this
  · obtain ⟨hlt, hgt⟩ := htie hodd
    rw [← mul_div_assoc, lt_div_iff₀ hpos] at hlt
    rw [← mul_div_assoc, div_lt_iff₀ hpos] at hgt
    constructor
    · have : 2 * ((n : ℚ) * den) < 2 * num + den := by linarith
      exact_mod_cast this
    · have : 2 * (num : ℚ) < 2 * (n * den) + den := by linarith
      exact_mod_cast this

/-- The sizes of the two sides of a fraction leave it two bits of room. -/
theorem between_of_log2 (hnum : 0 < num) (hden : 0 < den) (he : e = num.log2 - den.log2 - 53) :
    (2 : ℚ) ^ 52 * 2 ^ e < num / den ∧ (num / den : ℚ) < 2 ^ 54 * 2 ^ e := by
  have hd : (0 : ℚ) < den := by exact_mod_cast hden
  have hnum1 : (2 : ℚ) ^ num.log2 ≤ num := by exact_mod_cast Nat.log2_self_le (by omega)
  have hnum2 : (num : ℚ) < 2 ^ (num.log2 + 1) := by exact_mod_cast Nat.lt_log2_self
  have hden1 : (2 : ℚ) ^ den.log2 ≤ den := by exact_mod_cast Nat.log2_self_le (by omega)
  have hden2 : (den : ℚ) < 2 ^ (den.log2 + 1) := by exact_mod_cast Nat.lt_log2_self
  have hpow : (2 : ℚ) ^ num.log2 = 2 ^ 53 * 2 ^ e * 2 ^ den.log2 := by
    rw [← zpow_natCast, ← zpow_natCast, ← zpow_natCast, ← zpow_add₀ (by norm_num),
      ← zpow_add₀ (by norm_num)]
    congr 1
    omega
  rw [pow_succ] at hnum2 hden2
  rw [lt_div_iff₀ hd, div_lt_iff₀ hd]
  constructor
  · have := mul_lt_mul_of_pos_left hden2 (mul_pos (by norm_num : (0 : ℚ) < 2 ^ 52) (two_zpow_pos e))
    linarith
  · have := mul_le_mul_of_nonneg_left hden1
      (mul_pos (by norm_num : (0 : ℚ) < 2 ^ 54) (two_zpow_pos e)).le
    linarith

/-- The test for the second of these bits. -/
theorem two_mul_leastFull_le_iff (num : Nat) (hden : 0 < den) (e : Int) :
    2 * leastFull ≤ (scale num den e).1 / (scale num den e).2 ↔ (2 : ℚ) ^ 53 * 2 ^ e ≤ num / den := by
  have hpos : (0 : ℚ) < (scale num den e).2 := by exact_mod_cast scale_snd_pos num hden e
  rw [Nat.le_div_iff_mul_le (scale_snd_pos num hden e), ← le_div_iff₀ (two_zpow_pos e), ← scale_div,
    le_div_iff₀ hpos, leastFull_eq]
  exact_mod_cast Iff.rfl

/-- A fraction with 53 bits before the point, unless its exponent is the least one. -/
structure Fits (v : ℚ) (e : Int) : Prop where
  least : -1074 ≤ e
  high : v < 2 ^ 53 * 2 ^ e
  low : e = -1074 ∨ (2 : ℚ) ^ 52 * 2 ^ e ≤ v

theorem fits_max {v : ℚ} (hhigh : v < 2 ^ 53 * 2 ^ e) (hlow : (2 : ℚ) ^ 52 * 2 ^ e ≤ v) :
    Fits v (max e (-1074)) := by
  refine ⟨by omega, hhigh.trans_le ?_, ?_⟩
  · exact mul_le_mul_of_nonneg_left (zpow_le_zpow_right₀ (by norm_num) (by omega)) (by norm_num)
  · rcases Int.le_total e (-1074) with h | h
    · exact .inl (by omega)
    · exact .inr (by rwa [max_eq_left h])

/-- The exponent that rounding takes leaves a fraction as many bits as the format has. -/
theorem fits_exponentFor (hnum : 0 < num) (hden : 0 < den) :
    Fits (num / den) (exponentFor num den) := by
  obtain ⟨hlow, hhigh⟩ := between_of_log2 hnum hden rfl
  have hfull := two_mul_leastFull_le_iff num hden (num.log2 - den.log2 - 53)
  unfold exponentFor
  simp only
  split
  · next h =>
    rw [hfull] at h
    refine fits_max ?_ ?_
    · rw [zpow_add_one₀ (by norm_num)]
      linarith
    · rw [zpow_add_one₀ (by norm_num)]
      linarith
  · next h =>
    rw [hfull, not_le] at h
    exact fits_max h hlow.le

/-- The exponent of a fraction near a number is that of the number, or one less where the number is the
least with its exponent and the fraction is below it. -/
theorem Near.exponent {v : ℚ} {E : Int} (hcanonical : Canonical m e) (hm : m ≠ 0) (h : Near m e v)
    (hfits : Fits v E) : E = e ∨ (E + 1 = e ∧ m = leastFull ∧ v < m * 2 ^ e) := by
  obtain ⟨hleast, hhigh, hlow⟩ := hfits
  obtain ⟨hlt, hmin, -, hfull⟩ := hcanonical
  rw [leastFull_eq] at hlt hfull ⊢
  have hpos := two_zpow_pos e
  -- with a greater exponent the fraction would lie above the upper end
  have hle : E ≤ e := by
    rcases hlow with rfl | hlow
    · exact hmin
    · have hm' : (m : ℚ) + 1 ≤ 2 ^ 53 := by exact_mod_cast (show m + 1 ≤ 2 ^ 53 by omega)
      have hlt' : (2 : ℚ) ^ E < 2 ^ (e + 1) := by
        rw [zpow_add_one₀ (by norm_num)]
        nlinarith [h.high, two_mul_highest m e]
      have := (zpow_lt_zpow_iff_right₀ (by norm_num)).1 hlt'
      omega
  -- with a smaller one it lies below the least significand, which is so in one case only
  by_cases hv : (2 : ℚ) ^ 52 * 2 ^ e ≤ v
  · have hlt' : (2 : ℚ) ^ e < 2 ^ (E + 1) := by
      rw [zpow_add_one₀ (by norm_num)]
      linarith
    have := (zpow_lt_zpow_iff_right₀ (by norm_num)).1 hlt'
    exact .inl (by omega)
  · by_cases hmin' : e = -1074
    · exact .inl (by omega)
    · rw [not_le] at hv
      have hm52 : m = 2 ^ 52 := by
        have : (2 * (m : ℚ) - 1) * 2 ^ e < 2 * 2 ^ 52 * 2 ^ e := by
          linarith [h.low, le_two_mul_lowest hm e]
        have : 2 * (m : ℚ) < 2 * 2 ^ 52 + 1 := by linarith [lt_of_mul_lt_mul_right this hpos.le]
        have : 2 * m < 2 * 2 ^ 52 + 1 := by exact_mod_cast this
        omega
      have hedge := four_mul_lowest_of_leastFull (hm52.trans leastFull_eq.symm) (show -1074 < e by omega)
      have hlt' : (2 : ℚ) ^ e < 2 ^ (E + 2) := by
        rw [zpow_add₀ (by norm_num)]
        rw [show (m : ℚ) = 2 ^ 52 by exact_mod_cast hm52] at hedge
        linarith [h.low]
      have := (zpow_lt_zpow_iff_right₀ (by norm_num)).1 hlt'
      rcases (show E = e ∨ E + 1 = e by omega) with he | he
      · exact .inl he
      · refine .inr ⟨he, hm52, ?_⟩
        rw [hm52]
        exact_mod_cast hv

/-- The number that is made of a rounded significand, which may have come to one bit more. -/
theorem round_eq (negative : Bool) {E : Int} {n : Nat} (hcanonical : Canonical m e)
    (hE : exponentFor num den = E) (hn : roundDiv (scale num den E).1 (scale num den E).2 = n)
    (h : (if n = 2 * leastFull then (leastFull, E + 1) else (n, E)) = (m, e)) :
    round negative num den = finite negative m e hcanonical := by
  subst hE hn
  have hround : round negative num den =
      (fun r : Nat × Int => if h : Canonical r.1 r.2 then finite negative r.1 r.2 h
        else infinite negative)
      (if roundDiv (scale num den (exponentFor num den)).1 (scale num den (exponentFor num den)).2 =
          2 * leastFull then (leastFull, exponentFor num den + 1)
        else (roundDiv (scale num den (exponentFor num den)).1 (scale num den (exponentFor num den)).2,
          exponentFor num den)) := rfl
  rw [hround, h]
  exact dif_pos hcanonical

/-- On the grid of a number, a fraction near it is rounded to its significand. -/
theorem roundDiv_of_near (hm : m ≠ 0) (hden : 0 < den) (h : Near m e (num / den)) :
    roundDiv (scale num den e).1 (scale num den e).2 = m := by
  have hpos := two_zpow_pos e
  have hlow := le_two_mul_lowest hm e
  have hhigh := two_mul_highest m e
  refine roundDiv_eq (scale_snd_pos num hden e) ?_ ?_ fun hodd => ⟨?_, ?_⟩
  · rw [scale_div, ← mul_div_assoc, le_div_iff₀ hpos]
    linarith [h.low]
  · rw [scale_div, ← mul_div_assoc, div_le_iff₀ hpos]
    linarith [h.high]
  · rw [scale_div, ← mul_div_assoc, lt_div_iff₀ hpos]
    linarith [(h.tie hodd).1]
  · rw [scale_div, ← mul_div_assoc, div_lt_iff₀ hpos]
    linarith [(h.tie hodd).2]

/-- A fraction just below the least number with an exponent is rounded up to one bit more. -/
theorem roundDiv_of_near_below (hm : m = leastFull) (he : -1074 < e) (hden : 0 < den)
    (h : Near m e (num / den)) (hbelow : (num / den : ℚ) < m * 2 ^ e) :
    roundDiv (scale num den (e - 1)).1 (scale num den (e - 1)).2 = 2 * leastFull := by
  have hpos := two_zpow_pos (e - 1)
  have hpow : (2 : ℚ) ^ e = 2 ^ (e - 1) * 2 := by
    rw [← zpow_add_one₀ (by norm_num), Int.sub_add_cancel]
  have hedge := four_mul_lowest_of_leastFull hm he
  have hlow := h.low
  rw [hpow] at hedge hbelow
  rw [hm] at hedge hbelow hlow
  refine roundDiv_eq (scale_snd_pos num hden (e - 1)) ?_ ?_ fun hodd => absurd hodd (by omega)
  · rw [scale_div, ← mul_div_assoc, le_div_iff₀ hpos]
    push_cast
    linarith
  · rw [scale_div, ← mul_div_assoc, div_le_iff₀ hpos]
    push_cast
    linarith

/-- **A fraction near a number rounds to it.** -/
theorem round_of_near (negative : Bool) (hcanonical : Canonical m e) (hm : m ≠ 0) (hden : 0 < den)
    (h : Near m e (num / den)) : round negative num den = finite negative m e hcanonical := by
  have hnum : 0 < num := by
    rcases Nat.eq_zero_or_pos num with rfl | hnum
    · have hv := h.pos hm
      simp at hv
    · exact hnum
  have hfits := fits_exponentFor hnum hden
  rcases h.exponent hcanonical hm hfits with he | ⟨he, hfull, hbelow⟩
  · refine round_eq negative hcanonical he (roundDiv_of_near hm hden h) (if_neg ?_)
    have := hcanonical.1
    omega
  · -- the fraction has one bit less than the number, and rounding gives it that bit back
    have hleast := hfits.least
    have hE : exponentFor num den = e - 1 := by omega
    have hn := roundDiv_of_near_below hfull (by omega) hden h hbelow
    refine round_eq negative hcanonical hE hn ?_
    rw [if_pos rfl, hfull, Int.sub_add_cancel]

end Stencil.Number
