import Stencil.Render.Placeholder
import Stencil.Template.Block

/-!
# Expanding blocks

A loop is replaced by its body, once for each row of the value it runs over; a conditional is replaced
by the branch that its condition selects. Conditions are always read against the whole data, also
inside a loop.
-/

namespace Stencil

open Text

/-- What becomes of a loop whose key is not bound. -/
inductive MissingBlocks where
  | preserve
  | remove
  deriving DecidableEq

namespace MissingBlocks

/-- The name of a policy in the settings. -/
def name : MissingBlocks → String
  | preserve => "preserve"
  | remove => "remove"

/-- The policy with the given name. -/
def ofName? (s : String) : Option MissingBlocks :=
  if s = "preserve" then some preserve
  else if s = "remove" then some remove
  else none

theorem ofName?_name (m : MissingBlocks) : ofName? m.name = some m := by
  cases m <;> decide

end MissingBlocks

namespace LoopBlock

/-- The body for one row. The fields of a mapping fill the placeholders of the row, a scalar fills
the placeholder of the loop itself, and a sequence fills nothing. -/
def expandRow (b : LoopBlock) : Value → List Char
  | .mapping fields => Placeholder.fill (some b.key) b.body fields
  | row => Placeholder.fillOne none b.body b.key row

/-- What stands in place of a block with the given text. -/
def expand (data : Mapping) (missing : MissingBlocks) (b : LoopBlock) (lexeme : List Char) :
    List Char :=
  match data.get? b.key, missing with
  | some value, _ => value.rows.flatMap b.expandRow
  | none, .preserve => lexeme
  | none, .remove => []

end LoopBlock

namespace ConditionalBlock

/-- The branch that the data choose. -/
def resolve (data : Mapping) (b : ConditionalBlock) : List Char :=
  if b.condition.holds data then b.whenTrue else b.whenFalse

end ConditionalBlock

namespace Expansion

/-- Expands the loop blocks of a text. -/
def loops (data : Mapping) (missing : MissingBlocks) (text : List Char) : List Char :=
  LoopBlock.recogniser.replace (LoopBlock.expand data missing) text

/-- Resolves the conditional blocks of a text. -/
def conditionals (data : Mapping) (text : List Char) : List Char :=
  ConditionalBlock.recogniser.replace (fun b _ => b.resolve data) text

end Expansion

end Stencil
