import Stencil.Command.Inputs
import Stencil.Command.Invocation
import Stencil.Report.Explanation
import Stencil.Report.Listing
import Stencil.Widget.Selector

/-!
# Execution of commands

A command reads its inputs through a host and ends with an outcome: what it prints, and the problem it
ended with, if any. Only rendering to a file and writing the first settings change a file, as the last
thing they do.

* `status_eq_zero_iff`: the exit status tells whether there was a problem.
-/

namespace Stencil

/-- What a command ended with. -/
structure Outcome where
  output : String
  problem : Option Problem

namespace Outcome

/-- An outcome without a problem. -/
def printing (output : String) : Outcome := ⟨output, none⟩

/-- A command that ends early prints nothing. -/
def ofAttempt : Except Problem Outcome → Outcome
  | .ok o => o
  | .error p => ⟨"", some p⟩

/-- The exit status of the program. -/
def status (o : Outcome) : Nat := if o.problem.isSome then 1 else 0

theorem status_eq_zero_iff (o : Outcome) : o.status = 0 ↔ o.problem = none := by
  obtain ⟨_, problem⟩ := o
  cases problem <;> simp [status]

/-- The report of the problem. -/
def complaint (o : Outcome) : String := (o.problem.map (·.report.printed)).getD ""

end Outcome

namespace Command

variable {m : Type → Type} [Monad m]

/-- A result of the template rules. -/
def settled {α : Type} : Except TemplateFault α → Attempt m α
  | .ok a => return a
  | .error fault => throw (.ofCause (.template fault))

/-- Whether a template and a data file would both be read from the standard input. -/
def sharesInput (template : String) (data : List String) : Bool :=
  FilePath.isStandard template && data.any FilePath.isStandard

/-- The text that is rendered. -/
def renderText (host : Host m) (settings : Settings) (template : String) (data : List String) :
    Attempt m String := do
  if sharesInput template data then
    throw (.ofMessage "Only one of the template and the data files can be read from stdin")
  let text ← Inputs.readInput host template
  let context ← Inputs.readContexts host data
  settled (settings.renderer.run text context)

/-- The file that rendering writes to, unless it prints. -/
def outputFile? (output : Option String) : Option String :=
  output.filter (!FilePath.isStandard ·)

/-- Prints a rendered text, or writes it to the file that is given for it. -/
def deliver (host : Host m) (output : Option String) (rendered : String) : Attempt m Outcome :=
  match outputFile? output with
  | none => return .printing rendered
  | some path => do
    Attempt.ofFile (some ("Failed to write output to " ++ path)) (host.writeFile path rendered)
    return .printing ""

/-- Renders a template and delivers the text. -/
def runRender (host : Host m) (settings : Settings) (template : String) (data : List String)
    (output : Option String) : Attempt m Outcome := do
  deliver host output (← renderText host settings template data)

/-- Prints what a template is made of. In the strict mode warnings are a problem, which is reported
behind the listing. -/
def runCheck (host : Host m) (settings : Settings) (template : String) (strict json : Bool) :
    Attempt m Outcome := do
  let source ← Inputs.readInput host template
  let outline ← settled (settings.renderer.outline source)
  let output := if json then Json.write (outline.datum source) ++ "\n"
    else outline.listing template source
  let count := outline.warnings.length
  let problem := if strict ∧ count ≠ 0 then
      some (.ofMessage ("Template '" ++ template ++ "' has " ++ count.repr ++ " warning(s)"))
    else none
  return ⟨output, problem⟩

/-- Prints the settings in force and where they are kept. -/
def runShow (host : Host m) (path : String) : Attempt m Outcome := do
  let settings ← Inputs.readSettings host path
  let isThere ← (host.hasPath path : m Bool)
  let remark := if isThere then "" else " (not found, using defaults)"
  return .printing ("Render Configuration\nLocation: " ++ path ++ remark ++ "\n\n" ++
    settings.text ++ "\n")

/-- Refuses a path where there is something, unless that may be overwritten. -/
def demandNothing (host : Host m) (path : String) (force : Bool) : Attempt m Unit :=
  if force then return ()
  else do
    if ← (host.hasPath path : m Bool) then
      throw (.ofMessage ("Config already exists at " ++ path ++ ". Use --force to overwrite"))

/-- Makes the folder of a path, and those around it. -/
def makeRoom (host : Host m) (path : String) : Attempt m Unit :=
  match (FilePath.ofText path).parent? with
  | none => return ()
  | some folder => Attempt.ofFile none (host.makeFolder folder)

/-- Writes the first settings. What stands at the path is looked at before its folder is made, and not
again afterwards. -/
def runInit (host : Host m) (path : String) (force : Bool) : Attempt m Outcome := do
  demandNothing host path force
  makeRoom host path
  Attempt.ofFile none (host.writeFile path Settings.exampleText)
  return .printing ("✓ Created config at: " ++ path ++ "\n")

/-- A command carried out, up to the first problem. Escaping a selector reads no settings. -/
def attempt (host : Host m) (env : Environment) (config : Option String) :
    Command → Attempt m Outcome
  | render template data output => do
    let settings ← Inputs.readSettings host (← Inputs.settingsPath env config)
    runRender host settings template data output
  | check template strict json => do
    let settings ← Inputs.readSettings host (← Inputs.settingsPath env config)
    runCheck host settings template strict json
  | escape selector => return .printing (Selector.escape selector ++ "\n")
  | showSettings => do runShow host (← Inputs.settingsPath env config)
  | settingsPath => do return .printing ((← Inputs.settingsPath env config) ++ "\n")
  | initSettings force => do runInit host (← Inputs.settingsPath env config) force

/-- The outcome of a command, with the path of the settings that was given for it. -/
def run (host : Host m) (env : Environment) (config : Option String) (c : Command) : m Outcome :=
  Outcome.ofAttempt <$> (attempt host env config c).run

end Command

end Stencil
