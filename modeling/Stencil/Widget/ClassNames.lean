import Stencil.Data.Datum
import Stencil.Widget.Fault

/-!
# Class names

A widget puts its class names together from a stem that it shares with others, its own name, and the
suffix for a role.
-/

namespace Stencil

/-- The class names of a widget. -/
structure ClassNames where
  stem : String
  name : String
  /-- Suffixes by role. -/
  classes : Fields String
  deriving DecidableEq

namespace ClassNames

/-- No suffixes yet. -/
def new (stem name : String) : ClassNames := ⟨stem, name, []⟩

/-- Sets the suffix of a role. -/
def withClass (c : ClassNames) (role suffix : String) : ClassNames :=
  { c with classes := c.classes.insert role suffix }

/-- The class name of a role. -/
def className (c : ClassNames) (role : String) : Except WidgetFault String :=
  match c.classes.get? role with
  | some suffix => .ok (c.stem ++ c.name ++ "-" ++ suffix)
  | none => .error (.unknownClass role)

/-- Suffixes by role from a data tree, all of them strings. -/
def classesOf? : Datum → Option (Fields String)
  | .mapping fields => fields.mapM fun (role, d) => d.string?.map fun suffix => (role, suffix)
  | _ => none

/-- Class names from a data tree: a mapping, where the classes may be absent and other keys are
ignored, or the same values in a sequence. -/
def ofDatum? : Datum → Option ClassNames
  | .mapping fields => do
    let stem ← (← Fields.get? fields "prefix").string?
    let name ← (← Fields.get? fields "name").string?
    match Fields.get? fields "classes" with
    | none => return ⟨stem, name, []⟩
    | some d => return ⟨stem, name, ← classesOf? d⟩
  | .sequence [.string stem, .string name] => some ⟨stem, name, []⟩
  | .sequence [.string stem, .string name, d] => (classesOf? d).map fun classes => ⟨stem, name, classes⟩
  | _ => none

end ClassNames

end Stencil
