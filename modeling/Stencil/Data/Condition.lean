import Stencil.Data.Value
import Stencil.Number.Arithmetic

/-!
# Conditions

A condition asks whether a key is bound, or compares what it is bound to with an operand. A key that
is not bound makes every condition false.
-/

namespace Stencil

/-- The operators of conditions. -/
inductive Operator where
  | equal
  | notEqual
  | greater
  | less
  deriving DecidableEq

namespace Operator

/-- How an operator is written. -/
def symbol : Operator → String
  | equal => "=="
  | notEqual => "!="
  | greater => ">"
  | less => "<"

/-- The operator that is written in the given way. -/
def ofSymbol? (s : String) : Option Operator :=
  if s = "==" then some equal
  else if s = "!=" then some notEqual
  else if s = ">" then some greater
  else if s = "<" then some less
  else none

theorem ofSymbol?_symbol (op : Operator) : ofSymbol? op.symbol = some op := by
  cases op <;> decide

/-- What is said of a text that names no operator. -/
def unknownMessage (s : String) : String := "unknown operator '" ++ s ++ "'"

end Operator

/-- A comparison with an operand, which is a text. -/
structure Comparison where
  operator : Operator
  operand : String
  deriving DecidableEq

/-- The condition of a conditional block, on the value of a key. -/
structure Condition where
  key : String
  /-- A condition without a comparison asks whether the key is bound to anything but `false`. -/
  comparison : Option Comparison
  deriving DecidableEq

namespace Condition

/-- How a condition is printed, with the operand between double quotes. -/
def text (c : Condition) : String :=
  match c.comparison with
  | none => c.key
  | some t => c.key ++ " " ++ t.operator.symbol ++ " \"" ++ t.operand ++ "\""

end Condition

namespace Comparison

/-- Numbers are compared as numbers where both sides are some, and texts code point by code point
otherwise. -/
def order? (v : Value) (operand : String) : Option Ordering :=
  match v.number?, Number.ofText? (Text.trim operand.toList) with
  | some x, some y => x.compare? y
  | _, _ => some (compare v.display operand)

/-- Whether a value compares as asked for. Equality is about the displayed value; the order is that of
numbers where both sides are numbers, and else that of texts. -/
def holds (t : Comparison) (v : Value) : Bool :=
  match t.operator with
  | .equal => v.display == t.operand
  | .notEqual => v.display != t.operand
  | .greater => order? v t.operand == some .gt
  | .less => order? v t.operand == some .lt

end Comparison

namespace Condition

/-- Whether a bound value meets the condition. -/
def accepts (c : Condition) (v : Value) : Bool :=
  match c.comparison, v with
  | none, .bool b => b
  | none, _ => true
  | some t, v => t.holds v

/-- Whether the condition holds of the data. It does not where its key is absent. -/
def holds (c : Condition) (data : Mapping) : Bool :=
  match data.get? c.key with
  | none => false
  | some v => c.accepts v

/-- Whether the condition holds of data that may be absent. Absent data binds no key. -/
def holdsIn (c : Condition) (data : Option Mapping) : Bool :=
  match data.bind (·.get? c.key) with
  | none => false
  | some v => c.accepts v

end Condition

end Stencil
