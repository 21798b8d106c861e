import Stencil.Number.Basic

/-!
# The shortest decimal text

A number is written with the fewest digits that read back as the same number, those nearest to it
where several do, always in positional notation.

For each count of digits the candidates are the two neighbours of the number on the grid of decimals
with that many digits. All tests are exact: a number is a fraction of natural numbers.
-/

namespace Stencil.Number

/-- The fraction `m * 2 ^ e`. -/
def fractionOf (m : Nat) (e : Int) : Nat × Nat := (m <<< e.toNat, 1 <<< (-e).toNat)

/-- The power of ten of the first digit of a fraction. One below one that is not too small is enlarged
first, and a digit more is counted for each power of ten. -/
def leadingPower (num den : Nat) : Int :=
  if den ≤ num then ((num / den).repr.length : Int) - 1
  else ((num * Nat.pow 10 330 / den).repr.length : Int) - 331

/-- The interval of fractions that round to `m * 2 ^ e`, in quarters of `2 ^ e`, and whether its
ends belong to it. The gap below a power of two is half as wide as the one above. -/
def rounding (m : Nat) (e : Int) : Nat × Nat × Bool :=
  let low := if m = leastFull ∧ -1074 < e then 4 * m - 1 else 4 * m - 2
  (low, 4 * m + 2, m % 2 == 0)

/-- Whether `q * 10 ^ x` rounds to `m * 2 ^ e`. -/
def readsBack (m : Nat) (e : Int) (q : Nat) (x : Int) : Bool :=
  let (low, high, closed) := rounding m e
  let (a, b) := fractionOf 1 (e - 2)
  let num := q * Nat.pow 10 x.toNat * b
  let den := Nat.pow 10 (-x).toNat * a
  if closed then low * den ≤ num && num ≤ high * den
  else low * den < num && num < high * den

/-- The neighbour of `m * 2 ^ e` among the multiples of `10 ^ x` that reads back, the nearer one of
two, the upper one of two equally near. -/
def neighbour? (m : Nat) (e x : Int) : Option Nat :=
  let (a, b) := fractionOf m e
  let num := a * Nat.pow 10 (-x).toNat
  let den := b * Nat.pow 10 x.toNat
  let q := num / den
  let below := readsBack m e q x
  let above := readsBack m e (q + 1) x
  if below && above then some (if 2 * (num % den) < den then q else q + 1)
  else if below then some q
  else if above then some (q + 1)
  else none

/-- Digits and exponent of ten of the shortest decimal, for a significand that is not zero. Seventeen
digits always suffice. -/
def shortest (m : Nat) (e : Int) : Nat × Int :=
  let (a, b) := fractionOf m e
  let top := leadingPower a b
  ((List.range 17).findSome? fun (n : Nat) =>
    (neighbour? m e (top - n)).map fun q => (q, top - n)).getD (0, 0)

/-- `digits * 10 ^ x` in positional notation. -/
def positional (digits : Nat) (x : Int) : List Char :=
  let ds := digits.repr.toList
  let point : Int := ds.length + x
  if 0 ≤ x then ds ++ List.replicate x.toNat '0'
  else if 0 < point then ds.take point.toNat ++ '.' :: ds.drop point.toNat
  else '0' :: '.' :: List.replicate (-point).toNat '0' ++ ds

/-- Trailing zeros moved from the digits into the exponent. -/
def dropZeros : Nat → Nat → Int → Nat × Int
  | 0, digits, x => (digits, x)
  | fuel + 1, digits, x =>
    if digits ≠ 0 ∧ digits % 10 = 0 then dropZeros fuel (digits / 10) (x + 1) else (digits, x)

/-- The text of a number: the fewest digits that are read back as the number, without an exponent. -/
def text : Number → String
  | nan => "NaN"
  | infinite negative => if negative then "-inf" else "inf"
  | finite negative m e _ =>
    let body :=
      if m = 0 then ['0']
      else
        let (digits, x) := shortest m e
        let (digits, x) := dropZeros 17 digits x
        positional digits x
    String.ofList (if negative then '-' :: body else body)

end Stencil.Number
