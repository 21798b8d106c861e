import Stencil.Template.Location
import Stencil.Template.Node

/-!
# Template faults

Why a template is refused: its blocks are not balanced, or it is larger than the limit. Each fault has
a message of one line and a report with the lines around it.
-/

namespace Stencil

/-- Why a template is refused. -/
inductive TemplateFault where
  | unbalanced (fault : BlockFault) (location : Location)
  | tooLarge (size limit : Nat)

namespace TemplateFault

/-- What is said of a fault in one line. -/
def message : TemplateFault → String
  | unbalanced fault location =>
    "Template syntax error at " ++ location.line.repr ++ ":" ++ location.column.repr ++ ": " ++
      fault.message
  | tooLarge size limit =>
    "Template is " ++ size.repr ++ " bytes, exceeding the limit of " ++ limit.repr ++ " bytes"

/-- `n` with blanks in front of it, to a width of at least `width`. -/
def padded (width n : Nat) : String := .ofList (n.repr.toList.leftpad width ' ')

/-- A line of an excerpt with its mark and its number. -/
def row (width : Nat) (mark : String) (entry : Nat × String) : String :=
  mark ++ " " ++ padded width entry.1 ++ " | " ++ entry.2 ++ "\n"

/-- The context of a location, with a mark at the line itself. The numbers are as wide as the
last one. -/
def excerpt (location : Location) : String :=
  match location.context.getLast? with
  | none => ""
  | some (last, _) =>
    "\n" ++ String.join (location.context.map fun entry =>
      row last.repr.length (if entry.1 = location.line then ">" else " ") entry)

/-- What is suggested where blocks are not balanced. -/
def advice : String :=
  let loop := String.ofList (Tag.braced "#each key".toList)
  let conditional := String.ofList (Tag.braced "#if key".toList)
  "\nSUGGESTION: Check that every block tag is closed.\n" ++
  "Common issues:\n" ++
  "  - " ++ loop ++ " without a matching " ++ Tag.eachClose.text ++ "\n" ++
  "  - " ++ conditional ++ " without a matching " ++ Tag.ifClose.text ++ "\n" ++
  "  - " ++ Tag.otherwise.text ++ " outside of an " ++ BlockFault.conditionalTag ++ " block\n"

/-- What is told of a fault in full. The line that it is in is marked. -/
def report : TemplateFault → String
  | unbalanced fault location =>
    "ERROR: Template Syntax Error\n\n" ++
    "Error: " ++ fault.message ++ "\n" ++
    "Line: " ++ location.line.repr ++ ", column: " ++ location.column.repr ++ "\n" ++
    excerpt location ++ advice
  | tooLarge size limit =>
    "ERROR: Template Too Large\n\n" ++
    "Size: " ++ size.repr ++ " bytes\n" ++
    "Limit: " ++ limit.repr ++ " bytes\n\n" ++
    "SUGGESTION: Split the template, or raise `max_template_size` in the config " ++
    "(0 disables the limit).\n"

end TemplateFault

namespace Node

/-- The tree of a template. -/
def ofSource (source : String) : Except TemplateFault (List Node) :=
  match ofTokens (Token.ofSource source) with
  | .ok nodes => .ok nodes
  | .error (fault, offset) => .error (.unbalanced fault (.ofFault source offset))

end Node

end Stencil
