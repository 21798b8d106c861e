import Stencil.Data.Datum
import Stencil.Data.Toml.Moment
import Stencil.Text.Hexadecimal

/-!
# TOML scalars

Values that are written without quotes: truth values, numbers and moments. Digits may be grouped with
single underscores. A moment becomes a mapping with a single key, and what is not a finite number
becomes nothing.
-/

namespace Stencil.Toml

/-- Digits without the underscores between them; each underscore stands between two digits. -/
def ungrouped? (isDigit : Char → Bool) (s : List Char) : Option (List Char) :=
  let groups := s.splitOn '_'
  if groups.all fun g => !g.isEmpty && g.all isDigit then some groups.flatten else none

/-- Decimal digits without the underscores; zero alone starts with a zero. -/
def decimal? (s : List Char) : Option (List Char) := do
  let digits ← ungrouped? Char.isDigit s
  if digits.length > 1 ∧ digits.head? = some '0' then none else some digits

/-- The number spelt by grouped digits of a base. -/
def radix? (base : Nat) (s : List Char) : Option Nat := do
  let digits ← ungrouped? Text.isHexDigit s
  let values ← digits.mapM Text.hexDigit?
  if values.all (· < base) then some (values.foldl (fun n d => base * n + d) 0) else none

/-- Whole numbers are those of machine words, with or without a sign. -/
def inRange (n : Int) : Bool := Word.holdsEither 64 n

/-- An integer, in one of the four bases. -/
def whole? : List Char → Option Int
  | '0' :: 'x' :: s => (radix? 16 s).map Int.ofNat
  | '0' :: 'o' :: s => (radix? 8 s).map Int.ofNat
  | '0' :: 'b' :: s => (radix? 2 s).map Int.ofNat
  | s => do
    let (negative, s) := Number.splitSign s
    let n := Number.ofDigits (← decimal? s)
    return if negative then -(n : Int) else n

/-- Whether a character may stand in a group of digits. -/
def isGroupChar (c : Char) : Bool := c.isDigit || c == '_'

/-- Digits behind a point; where there is no point there are none. -/
def fraction? : List Char → Option (List Char × List Char)
  | '.' :: s => do
    let digits ← ungrouped? Char.isDigit (s.takeWhile isGroupChar)
    return (digits, s.dropWhile isGroupChar)
  | s => some ([], s)

/-- The exponent at the end of a number; zero where there is none. -/
def exponent? : List Char → Option Int
  | [] => some 0
  | c :: s => do
    let (negative, s) := Number.splitSign s
    let n := Number.ofDigits (← ungrouped? Char.isDigit s)
    if c = 'e' ∨ c = 'E' then some (if negative then -(n : Int) else n) else none

/-- A number with a point or an exponent. It may not be too large to be finite. -/
def real? (s : List Char) : Option Number := do
  let (negative, s) := Number.splitSign s
  let digits ← decimal? (s.takeWhile isGroupChar)
  let rest := s.dropWhile isGroupChar
  let (part, tail) ← fraction? rest
  let x ← exponent? tail
  let f := Number.ofDecimal negative (Number.ofDigits (digits ++ part)) (x - part.length)
  if rest.isEmpty ∨ f.isInfinite then none else some f

/-- The words for what is not a finite number. -/
def isSpecial (s : List Char) : Bool :=
  let word := (Number.splitSign s).2
  word == "inf".toList || word == "nan".toList

/-- The key under which a moment is kept. -/
def momentKey : String := "$__toml_private_datetime"

/-- The value that a text without quotes spells. -/
def scalar? (s : List Char) : Option Datum :=
  if s = "true".toList then some (.bool true)
  else if s = "false".toList then some (.bool false)
  else if isSpecial s then some .null
  else
    match whole? s, real? s, Moment.ofText? s with
    | some n, _, _ => if inRange n then some (.integer n) else none
    | none, some f, _ => some (.real f)
    | none, none, some m => some (.mapping [(momentKey, .string m.text)])
    | none, none, none => none

end Stencil.Toml
