/-!
# Hexadecimal digits

Numbers written in hexadecimal, as escapes write the code points of characters.
-/

namespace Stencil.Text

/-- The value of a hexadecimal digit. -/
def hexDigit? (c : Char) : Option Nat :=
  if c.isDigit then some (c.toNat - '0'.toNat)
  else if 'a' ≤ c ∧ c ≤ 'f' then some (c.toNat - 'a'.toNat + 10)
  else if 'A' ≤ c ∧ c ≤ 'F' then some (c.toNat - 'A'.toNat + 10)
  else none

/-- Whether a character is a hexadecimal digit. -/
def isHexDigit (c : Char) : Bool := (hexDigit? c).isSome

/-- The number that a text of hexadecimal digits spells. -/
def hexNumber? (digits : List Char) : Option Nat :=
  digits.foldlM (fun n c => (hexDigit? c).map (16 * n + ·)) 0

/-- The number spelt by exactly `count` hexadecimal digits at the front of a text. -/
def hexPrefix? (count : Nat) (s : List Char) : Option (Nat × List Char) :=
  let digits := s.take count
  if digits.length = count then (hexNumber? digits).map (·, s.drop count) else none

/-- The character with a code point, where there is one. -/
def charOf? (n : Nat) : Option Char :=
  if h : n.isValidChar then some (.ofNatAux n h) else none

/-- The character whose code point is spelt by exactly `count` hexadecimal digits. -/
def hexChar? (count : Nat) (s : List Char) : Option (Char × List Char) := do
  let (n, rest) ← hexPrefix? count s
  let c ← charOf? n
  return (c, rest)

end Stencil.Text
