import Stencil.Data.Json.Writer
import Stencil.Template.Location
import Stencil.Template.Outline

/-!
# Listings

The listing of a template gives its outline, as text in lines or as a data tree. Warnings are shown with
the line and the column of the tag they are about.
-/

namespace Stencil

namespace Warning

/-- The line that a warning is about. -/
def line (w : Warning) (source : String) : Nat := Location.lineAt source.toList w.offset

/-- The column that a warning is about. -/
def column (w : Warning) (source : String) : Nat := Location.columnAt source.toList w.offset

/-- A warning as it is listed. -/
def text (w : Warning) (source : String) : String :=
  (w.line source).repr ++ ":" ++ (w.column source).repr ++ " " ++ w.concern.message

/-- A warning as data. -/
def datum (w : Warning) (source : String) : Datum :=
  .mapping [("column", .integer (w.column source)), ("line", .integer (w.line source)),
    ("message", .string w.concern.message)]

end Warning

namespace Outline

/-- Names in one line. -/
def listedNames (names : List String) : String :=
  if names.isEmpty then "(none)" else String.intercalate ", " names

/-- The outline of the template called `name`, in lines. -/
def listing (o : Outline) (name source : String) : String :=
  let item (label text : String) := "  " ++ label ++ ": " ++ text ++ "\n"
  "✓ " ++ name ++ " is well formed\n" ++
    item "Variables" (listedNames o.placeholders) ++
    item "Loops" (listedNames o.loops) ++
    item "Conditions" (listedNames o.conditions) ++
    item "Max depth" o.maxDepth.repr ++
    if o.warnings.isEmpty then ""
    else "\nWarnings:\n" ++
      String.join (o.warnings.map fun w => "  " ++ w.text source ++ "\n")

/-- An outline as data, with its fields in the order of their names. -/
def datum (o : Outline) (source : String) : Datum :=
  let names (ns : List String) : Datum := .sequence (ns.map .string)
  .mapping [("conditions", names o.conditions), ("loops", names o.loops),
    ("max_depth", .integer o.maxDepth), ("variables", names o.placeholders),
    ("warnings", .sequence (o.warnings.map (·.datum source)))]

end Outline

end Stencil
