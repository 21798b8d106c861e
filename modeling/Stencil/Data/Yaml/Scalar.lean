import Stencil.Data.Datum
import Stencil.Number.Decimal
import Stencil.Text.Hexadecimal

/-!
# Reading YAML scalars

A plain scalar without a tag is read as what it looks like: nothing, a truth value, a number, or else a
string. A quoted one is a string. A tag of the core schema asks for one of these, and a tag of the
document's own is refused.
-/

namespace Stencil.Yaml

open Text

namespace Scalar

/-- Whether a plain scalar is the null value. -/
def isNull (s : String) : Bool := ["null", "Null", "NULL", "~"].contains s

/-- The truth value that a plain scalar stands for. -/
def bool? (s : String) : Option Bool :=
  if ["true", "True", "TRUE"].contains s then some true
  else if ["false", "False", "FALSE"].contains s then some false
  else none

/-- Digits behind a leading zero, which are not read as a number. -/
def isZeroPadded (s : List Char) : Bool :=
  match (Number.splitSign s).2 with
  | '0' :: c :: s => (c :: s).all Char.isDigit
  | _ => false

/-- The number spelt by digits of a base, at least one. -/
def radix? (base : Nat) (s : List Char) : Option Nat := do
  let values ← s.mapM hexDigit?
  if values ≠ [] ∧ values.all (· < base) then
    some (values.foldl (fun n d => base * n + d) 0)
  else none

/-- A whole number without a sign. -/
def magnitude? : List Char → Option Nat
  | '0' :: 'x' :: s => radix? 16 s
  | '0' :: 'o' :: s => radix? 8 s
  | '0' :: 'b' :: s => radix? 2 s
  | s =>
    if s ≠ [] ∧ s.all Char.isDigit ∧ !isZeroPadded s then some (Number.ofDigits s) else none

/-- The integer that a plain scalar stands for. -/
def whole? (s : List Char) : Option Int := do
  let (negative, s) := Number.splitSign s
  let n ← magnitude? s
  return if negative then -(n : Int) else n

/-- Whether a whole number has a place in a data tree: it is one of 64 bits, with or without a
sign. -/
def inRange (n : Int) : Bool := Word.holdsEither 64 n

/-- Whether a whole number is told apart from a real one: it is one of 128 bits. -/
def isWhole (n : Int) : Bool := Word.holdsEither 128 n

/-- Whether a plain scalar is infinite, without its sign. -/
def isInfinite (s : String) : Bool := [".inf", ".Inf", ".INF"].contains s

/-- Whether a plain scalar is not a number. -/
def isNan (s : String) : Bool := [".nan", ".NaN", ".NAN"].contains s

/-- A real number, finite where it is written with digits; the words for the others become nothing. -/
def real? (s : List Char) : Option Datum :=
  if isInfinite (.ofList (Number.splitSign s).2) ∨ isNan (.ofList s) then some .null
  else ((Number.ofText? s).filter Number.isFinite).map .real

/-- What a plain scalar without a tag looks like. A whole number that is too large has no reading. -/
def plain? (s : String) : Option Datum :=
  if s = "" ∨ isNull s then some .null
  else
    match bool? s with
    | some b => some (.bool b)
    | none =>
      match whole? s.toList with
      | some n =>
        if inRange n then some (.integer n)
        else if isWhole n then none
        else some ((real? s.toList).getD (.string s))
      | none =>
        if isZeroPadded s.toList then some (.string s)
        else some ((real? s.toList).getD (.string s))

/-- The name of a tag of the core schema. -/
def coreTag (name : String) : String := "tag:yaml.org,2002:" ++ name

/-- Whether a tag is one of the document's own. -/
def isLocal (tag : Option String) : Bool := tag.any fun t => t.toList.head? == some '!'

/-- The data tree of a scalar. -/
def datum? (tag : Option String) (text : String) (plain : Bool) : Option Datum :=
  match tag with
  | none => if plain then plain? text else some (.string text)
  | some t =>
    if isLocal tag then none
    else if t = coreTag "bool" then (bool? text).map .bool
    else if t = coreTag "int" then
      ((whole? text.toList).filter inRange).map .integer
    else if t = coreTag "float" then real? text.toList
    else if t = coreTag "null" then if isNull text then some .null else none
    else some (.string text)

end Scalar

end Stencil.Yaml
