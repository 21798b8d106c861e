import Stencil.Number.Word

/-!
# Numbers

The numbers of the data are those of the binary64 format of IEEE 754. A finite one is kept exactly,
as a sign and an integer significand times a power of two, so that rounding, order and text are
plain integer arithmetic.
-/

namespace Stencil

namespace Number

/-- The least significand of 53 bits. -/
def leastFull : Nat := Word.span 52

/-- The significand fills 53 bits unless the exponent is the least one. -/
def Canonical (significand : Nat) (exponent : Int) : Prop :=
  significand < 2 * leastFull ∧ -1074 ≤ exponent ∧ exponent ≤ 971 ∧
    (leastFull ≤ significand ∨ exponent = -1074)

instance (m : Nat) (e : Int) : Decidable (Canonical m e) :=
  inferInstanceAs (Decidable (_ ∧ _ ∧ _ ∧ _))

end Number

/-- Binary numbers with 53 significant bits. -/
inductive Number where
  | nan
  | infinite (negative : Bool)
  /-- The number `significand * 2 ^ exponent`, or its negation; zero has both signs. -/
  | finite (negative : Bool) (significand : Nat) (exponent : Int)
      (canonical : Number.Canonical significand exponent)
  deriving DecidableEq

namespace Number

/-- Zero, with a sign. -/
def zero (negative : Bool) : Number := finite negative 0 (-1074) (by decide)

/-- The integer nearest to `num / den`, the even one of two equally near. -/
def roundDiv (num den : Nat) : Nat :=
  let q := num / den
  let r := num % den
  if den < 2 * r ∨ (2 * r = den ∧ q % 2 = 1) then q + 1 else q

/-- Numerator and denominator of `num / den / 2 ^ e`. -/
def scale (num den : Nat) (e : Int) : Nat × Nat :=
  (num <<< (-e).toNat, den <<< e.toNat)

/-- The exponent that leaves `num / den` 53 bits, or the least exponent where that is greater. -/
def exponentFor (num den : Nat) : Int :=
  let e : Int := (num.log2 : Int) - den.log2 - 53
  let (a, b) := scale num den e
  max (if 2 * leastFull ≤ a / b then e + 1 else e) (-1074)

/-- The number nearest to `num / den`, the one with the even significand of two equally near;
infinite past the greatest finite number. -/
def round (negative : Bool) (num den : Nat) : Number :=
  let e := exponentFor num den
  let (a, b) := scale num den e
  let m := roundDiv a b
  let (m, e) := if m = 2 * leastFull then (leastFull, e + 1) else (m, e)
  if h : Canonical m e then finite negative m e h else infinite negative

/-- Zero takes the given sign, so that `ofInt` is not the only way to make one. -/
def ofNat (negative : Bool) (n : Nat) : Number :=
  if n = 0 then zero negative else round negative n 1

/-- An integer, rounded. -/
def ofInt (n : Int) : Number := ofNat (n < 0) n.natAbs

/-- Whether a number is zero, of either sign. -/
def isZero : Number → Bool
  | finite _ m _ _ => m == 0
  | _ => false

/-- Whether a number is finite. -/
def isFinite : Number → Bool
  | finite .. => true
  | _ => false

/-- Whether a number is infinite. -/
def isInfinite : Number → Bool
  | infinite _ => true
  | _ => false

/-- The number with the other sign. -/
def neg : Number → Number
  | nan => nan
  | infinite s => infinite !s
  | finite s m e h => finite (!s) m e h

end Number

end Stencil
