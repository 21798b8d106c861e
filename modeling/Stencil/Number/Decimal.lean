import Stencil.Number.Basic

/-!
# Reading decimal numbers

A decimal number is a sign, digits with a point among or around them, and an exponent of ten; the
words for infinity and for what is not a number are read in any case. A number is read as the
nearest one of the format.
-/

namespace Stencil.Number

/-- The value of a decimal digit. -/
def digitValue (c : Char) : Nat := c.toNat - '0'.toNat

/-- The value of decimal digits. -/
def ofDigits (cs : List Char) : Nat := cs.foldl (fun n c => 10 * n + digitValue c) 0

/-- The number nearest to `m * 10 ^ x`. Exponents so large or small that the answer is infinite or
zero for any `m` of that length are told apart before the power is computed. -/
def ofDecimal (negative : Bool) (m : Nat) (x : Int) : Number :=
  if m = 0 then zero negative
  else if 400 < x then infinite negative
  else if x < -(m.log2 + 401 : Nat) then zero negative
  else round negative (m * Nat.pow 10 x.toNat) (Nat.pow 10 (-x).toNat)

/-- A sign at the front of a text, and whether it is a minus. -/
def splitSign : List Char → Bool × List Char
  | '-' :: s => (true, s)
  | '+' :: s => (false, s)
  | s => (false, s)

/-- An exponent at the end of a decimal number: `e` or `E`, a sign, digits. An absent one is zero. -/
def exponent? : List Char → Option Int
  | [] => some 0
  | c :: s =>
    let (negative, digits) := splitSign s
    if (c = 'e' ∨ c = 'E') ∧ !digits.isEmpty ∧ digits.all Char.isDigit then
      some (if negative then -(ofDigits digits : Int) else ofDigits digits)
    else none

/-- The digits after a leading point, and what follows them. -/
def fraction : List Char → List Char × List Char
  | '.' :: s => (s.takeWhile Char.isDigit, s.dropWhile Char.isDigit)
  | s => ([], s)

/-- A decimal number without its sign. -/
def unsigned? (negative : Bool) (s : List Char) : Option Number := do
  let whole := s.takeWhile Char.isDigit
  let (part, rest) := fraction (s.dropWhile Char.isDigit)
  let x ← exponent? rest
  if whole.isEmpty && part.isEmpty then none
  else some (ofDecimal negative (ofDigits (whole ++ part)) (x - part.length))

/-- The words for numbers that have no digits. -/
def special? (negative : Bool) (s : List Char) : Option Number :=
  let word := String.ofList (s.map Char.toLower)
  if word = "inf" ∨ word = "infinity" then some (infinite negative)
  else if word = "nan" then some nan
  else none

/-- The number that a whole text stands for. -/
def ofText? (s : List Char) : Option Number :=
  let (negative, rest) := splitSign s
  (unsigned? negative rest).or (special? negative rest)

end Stencil.Number
