import Stencil.Data.Datum
import Stencil.Number.Decimal
import Stencil.Number.Shortest
import Stencil.Text.Blank

/-!
# Values

The values a template is rendered against. Scalars are put in place of placeholders; sequences and
mappings are what loops run over.

* `rows_of_sequence`: a loop over a sequence has a row for each of its items.
-/

namespace Stencil

/-- The values that templates are rendered with. -/
inductive Value where
  | null
  | bool (b : Bool)
  | number (x : Number)
  | string (s : String)
  | sequence (items : List Value)
  | mapping (fields : List (String × Value))

/-- Named values. -/
abbrev Mapping := Fields Value

namespace Value

/-- Whether a value is neither a sequence nor a mapping. -/
def isScalar : Value → Bool
  | sequence _ => false
  | mapping _ => false
  | _ => true

/-- The fields, if the value is a mapping. -/
def mapping? : Value → Option Mapping
  | mapping fields => some fields
  | _ => none

/-- The number a value stands for in an ordered comparison, if any; a string may spell one. -/
def number? : Value → Option Number
  | number x => some x
  | string s => Number.ofText? (Text.trim s.toList)
  | _ => none

/-- The rows of a loop over the value: its items, or the value itself where it is no sequence. -/
def rows : Value → List Value
  | sequence items => items
  | v => [v]

theorem rows_of_sequence (items : List Value) : rows (sequence items) = items := rfl

/-- The name of the kind of a value. -/
def kind : Value → String
  | null => "null"
  | bool _ => "bool"
  | number _ => "number"
  | string _ => "string"
  | sequence _ => "sequence"
  | mapping _ => "mapping"

/-- The text put in place of a placeholder. Containers are summed up by their size. -/
def display : Value → String
  | null => ""
  | bool b => if b then "true" else "false"
  | number x => if x.isZero then "0" else x.text
  | string s => s
  | sequence items => "[" ++ items.length.repr ++ " items]"
  | mapping fields => "\x7b" ++ fields.length.repr ++ " keys\x7d"

mutual

/-- The value that a datum stands for. -/
def ofDatum : Datum → Value
  | .null => null
  | .bool b => bool b
  | .integer n => number (.ofInt n)
  | .real x => number x
  | .string s => string s
  | .sequence items => sequence (ofItems items)
  | .mapping fields => mapping (ofFields fields)

/-- The values of items. -/
def ofItems : List Datum → List Value
  | [] => []
  | d :: ds => ofDatum d :: ofItems ds

/-- The values of fields. -/
def ofFields : List (String × Datum) → List (String × Value)
  | [] => []
  | (key, d) :: fields => (key, ofDatum d) :: ofFields fields

end

end Value

end Stencil
