import Stencil.Data.Datum
import Stencil.Number.Arithmetic
import Stencil.Number.Decimal

/-!
# JSON numerals

The digits of a numeral are gathered into a significand of 64 bits. Digits that no longer fit are
dropped: before the point they raise the exponent of ten, behind it they are without effect. A numeral
without point and exponent that fits is a whole number; any other is the significand, rounded, times or
divided by a power of ten, rounded again.
-/

namespace Stencil.Json

/-- The largest significand that is kept exactly while digits are read. -/
def maxSignificand : Nat := Word.span 64 - 1

/-- A power of ten, rounded. -/
def powerOfTen (x : Nat) : Number := .ofDecimal false 1 x

/-- The greatest exponent of a power of ten that is a finite number. -/
def maxPower : Nat := 308

/-- `f * 10 ^ x`, or nothing where that is too large. Powers past the greatest finite one are divided
out step by step. -/
def scale (f : Number) (x : Int) : Option Number :=
  if 0 ≤ x then
    if x ≤ maxPower then
      let g := f.mul (powerOfTen x.toNat)
      if g.isInfinite then none else some g
    else if f.isZero then some f
    else none
  else if -x ≤ maxPower then some (f.div (powerOfTen (-x).toNat))
  else if f.isZero then some f
  else scale (f.div (powerOfTen maxPower)) (x + maxPower)
termination_by (-x).toNat
decreasing_by simp only [maxPower] at *; omega

/-- The number with the given sign, significand and exponent of ten. -/
def real? (negative : Bool) (significand : Nat) (x : Int) : Option Datum :=
  (scale (.ofNat false significand) x).map fun f => .real (if negative then f.neg else f)

/-- The digits gathered behind those of `significand`, how many they were, and the rest of the text,
which starts with a digit where that one does not fit. -/
def gather (significand count : Nat) : List Char → Nat × Nat × List Char
  | [] => (significand, count, [])
  | c :: s =>
    let next := significand * 10 + Number.digitValue c
    if c.isDigit && decide (next ≤ maxSignificand) then gather next (count + 1) s
    else (significand, count, c :: s)

/-- The exponent at the front of a text, and the rest; zero where there is none. -/
def exponent? : List Char → Option (Int × List Char)
  | c :: s =>
    if c = 'e' ∨ c = 'E' then
      let (negative, s) := Number.splitSign s
      let digits := s.takeWhile Char.isDigit
      let x : Int := Number.ofDigits digits
      if digits.isEmpty then none
      else some (if negative then -x else x, s.dropWhile Char.isDigit)
    else some (0, c :: s)
  | [] => some (0, [])

/-- The end of a numeral that is not whole: its exponent, added to the one already known. -/
def finish? (negative : Bool) (significand : Nat) (x : Int) (s : List Char) :
    Option (Datum × List Char) := do
  let (y, rest) ← exponent? s
  let d ← real? negative significand (x + y)
  return (d, rest)

/-- The digits behind the point, at least one, and the end of the numeral. -/
def fraction? (negative : Bool) (significand : Nat) (x : Int) (s : List Char) :
    Option (Datum × List Char) :=
  let (significand, count, rest) := gather significand 0 s
  let tail := rest.dropWhile Char.isDigit
  if count = 0 ∧ tail.length = s.length then none
  else finish? negative significand (x - count) tail

/-- Whether a character begins an exponent. -/
def isExponentMark (c : Char) : Bool := c == 'e' || c == 'E'

/-- A whole numeral; one that has no exact value as a whole number of 64 bits is a real one, and so
is minus zero. -/
def whole (negative : Bool) (significand : Nat) : Datum :=
  if !negative then .integer significand
  else if significand = 0 ∨ Word.span 63 < significand then .real (Number.ofNat false significand).neg
  else .integer (-significand)

/-- The numeral behind a sign, at the front of a text. -/
def unsigned? (negative : Bool) : List Char → Option (Datum × List Char)
  | [] => none
  | c :: s =>
    if !c.isDigit then none
    else if c = '0' ∧ (s.head?.map Char.isDigit).getD false then none
    else
      let (significand, _, rest) := gather (Number.digitValue c) 0 s
      let dropped := rest.takeWhile Char.isDigit
      let x : Int := dropped.length
      match rest.dropWhile Char.isDigit with
      | '.' :: tail => fraction? negative significand x tail
      | d :: tail =>
        if isExponentMark d || !dropped.isEmpty then finish? negative significand x (d :: tail)
        else some (whole negative significand, d :: tail)
      | [] =>
        if dropped.isEmpty then some (whole negative significand, [])
        else finish? negative significand x []

/-- A numeral, perhaps with a minus sign. -/
def numeral? : List Char → Option (Datum × List Char)
  | '-' :: s => unsigned? true s
  | s => unsigned? false s

end Stencil.Json
