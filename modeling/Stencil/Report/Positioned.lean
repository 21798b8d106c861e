import Stencil.Number.Decimal
import Stencil.Text.Occurrence

/-!
# Messages with a position

A message about a JSON text ends in the line and the column that it is about, or has no position. The
position is kept as two numbers, so that it has one spelling.
-/

namespace Stencil

open Text

/-- A message about a place in a text. -/
structure PositionedMessage where
  message : String
  /-- Line and column; line 0 stands for no place in the text, and is not written. -/
  position : Option (Nat × Nat)
  deriving DecidableEq

namespace PositionedMessage

/-- What stands before the number of a line. -/
def lineMark : List Char := " at line ".toList

/-- What stands before the number of a column. -/
def columnMark : List Char := " column ".toList

/-- A number that fits a machine word, of digits only. -/
def word? (digits : List Char) : Option Nat :=
  let n := Number.ofDigits digits
  if digits ≠ [] ∧ digits.all Char.isDigit ∧ n < Word.span 64 then some n else none

/-- The text before the last line mark in `s`, and the text behind it. -/
def splitLast? (s : List Char) : Option (List Char × List Char) :=
  (split? lineMark.reverse [] s.reverse).map fun (back, front) => (front.reverse, back.reverse)

/-- The message with its position, where one is written at its end. -/
def ofText (s : String) : PositionedMessage :=
  let positioned : Option PositionedMessage := do
    let (front, back) ← splitLast? s.toList
    let rest ← after? columnMark (back.dropWhile Char.isDigit)
    let line ← word? (back.takeWhile Char.isDigit)
    let column ← word? rest
    return ⟨.ofList front, some (line, column)⟩
  positioned.getD ⟨s, none⟩

/-- The message, with its position at the end. -/
def text (m : PositionedMessage) : String :=
  match m.position with
  | none => m.message
  | some (line, column) =>
    if line = 0 then m.message
    else m.message ++ .ofList lineMark ++ line.repr ++ .ofList columnMark ++ column.repr

end PositionedMessage

end Stencil
