import Stencil.Number.Basic

/-!
# Arithmetic and order

Sums, products and quotients are computed exactly and rounded once. The order is partial: nothing
compares with what is not a number.
-/

namespace Stencil.Number

/-- The significand with its sign, in units of `2 ^ unit`, for an exponent of at least `unit`. -/
def units (negative : Bool) (m : Nat) (e unit : Int) : Int :=
  let n : Int := (m <<< (e - unit).toNat : Nat)
  if negative then -n else n

/-- How two numbers compare, if they do; the two zeros are equal. -/
def compare? : Number → Number → Option Ordering
  | nan, _ => none
  | _, nan => none
  | infinite s, infinite t => some (compare t.toNat s.toNat)
  | infinite s, finite .. => some (if s then .lt else .gt)
  | finite .., infinite t => some (if t then .gt else .lt)
  | finite s m e _, finite t n f _ =>
    some (compare (units s m e (min e f)) (units t n f (min e f)))

/-- The rounded number of `n * 2 ^ e`; a zero sum is positive unless both terms were negative. -/
def ofUnits (negativeZero : Bool) (n e : Int) : Number :=
  if n = 0 then zero negativeZero
  else round (n < 0) (n.natAbs <<< e.toNat) (1 <<< (-e).toNat)

/-- The sum, rounded. -/
def add : Number → Number → Number
  | nan, _ => nan
  | _, nan => nan
  | infinite s, infinite t => if s = t then infinite s else nan
  | infinite s, _ => infinite s
  | _, infinite t => infinite t
  | finite s m e _, finite t n f _ =>
    ofUnits (s && t) (units s m e (min e f) + units t n f (min e f)) (min e f)

/-- The product, rounded. -/
def mul : Number → Number → Number
  | nan, _ => nan
  | _, nan => nan
  | infinite s, infinite t => infinite (s ^^ t)
  | infinite s, finite t n _ _ => if n = 0 then nan else infinite (s ^^ t)
  | finite s m _ _, infinite t => if m = 0 then nan else infinite (s ^^ t)
  | finite s m e _, finite t n f _ =>
    if m * n = 0 then zero (s ^^ t)
    else round (s ^^ t) ((m * n) <<< (e + f).toNat) (1 <<< (-(e + f)).toNat)

/-- The quotient, rounded. -/
def div : Number → Number → Number
  | nan, _ => nan
  | _, nan => nan
  | infinite _, infinite _ => nan
  | infinite s, finite t _ _ _ => infinite (s ^^ t)
  | finite s _ _ _, infinite t => zero (s ^^ t)
  | finite s m e _, finite t n f _ =>
    if n = 0 then (if m = 0 then nan else infinite (s ^^ t))
    else if m = 0 then zero (s ^^ t)
    else round (s ^^ t) (m <<< (e - f).toNat) (n <<< (f - e).toNat)

end Stencil.Number
