import Stencil.Data.Fields
import Stencil.Number.Basic

/-!
# Data trees

What a data file holds once it is read, whatever the format it was written in. Whole numbers are
kept apart from the others, since a setting may ask for one.
-/

namespace Stencil

/-- What a data file holds, before numbers are brought to their common form. -/
inductive Datum where
  | null
  | bool (b : Bool)
  | integer (n : Int)
  | real (x : Number)
  | string (s : String)
  | sequence (items : List Datum)
  | mapping (fields : List (String × Datum))

namespace Datum

/-- The value of a field. -/
def field? : Datum → String → Option Datum
  | mapping fields, key => Fields.get? fields key
  | _, _ => none

/-- The text, if it is one. -/
def string? : Datum → Option String
  | string s => some s
  | _ => none

/-- The truth value, if it is one. -/
def bool? : Datum → Option Bool
  | bool b => some b
  | _ => none

end Datum

end Stencil
