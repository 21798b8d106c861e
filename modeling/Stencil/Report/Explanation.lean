import Stencil.Report.Problem

/-!
# Explaining problems

A report gives the text of a problem, with details and a suggestion where there are any. A cause that
explains itself has details of its own; for any other the details are the texts below the outermost.
-/

namespace Stencil

/-- What is told of a problem. -/
structure Report where
  text : String
  details : Option String
  suggestion : Option String
  deriving DecidableEq

namespace Report

/-- A report of one text only. -/
def ofText (text : String) : Report := ⟨text, none, none⟩

/-- The report in one text, with a line for each part. -/
def summary (r : Report) : String :=
  r.text ++ (r.details.map ("\nDetails: " ++ ·)).getD "" ++
    (r.suggestion.map ("\nSuggestion: " ++ ·)).getD ""

/-- The report as it is written on a terminal. -/
def printed (r : Report) : String :=
  "error: " ++ r.text ++ "\n" ++
    (r.details.map fun s => "details: " ++ s ++ "\n").getD "" ++
    (r.suggestion.map fun s => "suggestion: " ++ s ++ "\n").getD ""

end Report

/-- Where the details of a problem come from. -/
inductive Explanation where
  /-- The cause explains itself, perhaps with nothing. -/
  | own (details : Option String)
  /-- The texts below the outermost, if there are any. -/
  | chain
  /-- The texts below the outermost, and an empty text if there are none. -/
  | fullChain

namespace Cause

/-- How a cause is explained. -/
def explanation : Cause → Explanation
  | template (.unbalanced fault location) => .own (some (TemplateFault.unbalanced fault location).report)
  | template (.tooLarge ..) => .own none
  | widget _ => .own none
  | data _ _ reason => .own (some reason)
  | unknownFormat .. => .own (some "Data files are read as JSON, YAML or TOML based on their extension")
  | settings _ => .own none
  | labelled _ => .own none
  | foreign (.toml _) => .fullChain
  | foreign _ => .chain
  | exception _ => .chain
  | plain _ => .chain
  | chained cause _ => cause.explanation

/-- What to do about a cause. -/
def suggestion : Cause → Option String
  | template (.unbalanced ..) => some "Run 'uxr check <TEMPLATE>' to see the template outline"
  | template (.tooLarge ..) =>
    some "Raise max_template_size in the configuration, or set it to 0 to disable the limit"
  | widget (.unknownCallback _ []) => some "Register the callback before invoking it"
  | widget (.unknownCallback _ suggestions) =>
    some ("Did you mean: " ++ String.intercalate ", " suggestions ++ "?")
  | widget (.unknownClass role) => some ("Add a '" ++ role ++ "' entry to the namespace classes")
  | data .. => some "Check the file contents or pass a file with a .json, .yaml or .toml extension"
  | unknownFormat .. => some "Rename the file to use a .json, .yaml, .yml or .toml extension"
  | settings _ => some "Run 'uxr config show' to inspect the effective configuration"
  | foreign (.file ⟨.notFound, _⟩) =>
    some "Check that the file or directory exists and the path is correct"
  | foreign (.file ⟨.permissionDenied, _⟩) =>
    some "Check the file permissions or run from a directory you own"
  | foreign (.toml _) =>
    some "Check the TOML syntax. Verify quotes, brackets, and that keys are not repeated"
  | chained cause _ => cause.suggestion
  | _ => none

end Cause

namespace Problem

/-- What stands between two texts of a chain. -/
def chainMark : String := "\n  caused by: "

/-- The texts below the outermost. -/
def causes (p : Problem) : List String := p.chain.tail

/-- The texts below the outermost, if there are any. -/
def chainDetails (p : Problem) : Option String :=
  if p.causes = [] then none else some (String.intercalate chainMark p.causes)

/-- The details of a problem. -/
def details (p : Problem) : Option String :=
  match p.cause.explanation with
  | .own details => details
  | .chain => p.chainDetails
  | .fullChain => some (p.chainDetails.getD "")

/-- What to do about a problem. The layers around its cause do not matter. -/
def suggestion (p : Problem) : Option String := p.cause.suggestion

/-- The report of a problem. -/
def report (p : Problem) : Report := ⟨p.text, p.details, p.suggestion⟩

end Problem

end Stencil
