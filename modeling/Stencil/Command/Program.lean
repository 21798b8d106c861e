import Stencil.Command.Execution

/-!
# The program

A run of the program reads its arguments, and then either carries out the command they make up or tells
how the program is used.

* `run_of_halt`: where the arguments make up no command, the host is left alone.
-/

namespace Stencil

/-- What a run of the program ends with: its exit status, and what it has printed to the standard output
and to the standard error. -/
structure Ending where
  status : Nat
  output : String
  complaint : String
  deriving DecidableEq

namespace Program

/-- How the program is used. -/
def usage : String :=
  "Usage: uxr [OPTIONS] <COMMAND>\n\n" ++
  "Commands:\n" ++
  "  render <TEMPLATE> [-d <FILE>]... [-o <FILE>]  Render a template against data files\n" ++
  "  check <TEMPLATE> [--strict] [--json]          Report the structure of a template\n" ++
  "  escape <SELECTOR>                             Escape a CSS ID selector\n" ++
  "  config [show | path | init [--force]]         Inspect or create the configuration file\n\n" ++
  "Options:\n" ++
  "  -v, --verbose        Enable debug logging\n" ++
  "  -q, --quiet          Only log errors\n" ++
  "  -c, --config <FILE>  Path to the configuration file\n" ++
  "  -h, --help           Print help\n" ++
  "  -V, --version        Print version\n"

end Program

namespace Ending

/-- The usage is what was asked for, or else it is a complaint. -/
def ofHalt : Halt → Ending
  | .information => ⟨0, Program.usage, ""⟩
  | .misuse => ⟨2, "", Program.usage⟩

/-- A command ends with its own outcome. -/
def ofOutcome (o : Outcome) : Ending := ⟨o.status, o.output, o.complaint⟩

end Ending

variable {m : Type → Type} [Monad m]

/-- Carries out an invocation. -/
def Invocation.run (host : Host m) (env : Environment) (i : Invocation) : m Ending :=
  .ofOutcome <$> i.command.run host env i.config

namespace Program

/-- A run of the program on its arguments. -/
def run (host : Host m) (env : Environment) (args : List String) : m Ending :=
  match Invocation.ofArguments args with
  | .error halt => pure (.ofHalt halt)
  | .ok invocation => invocation.run host env

theorem run_of_halt (host : Host m) (env : Environment) {args : List String} {halt : Halt}
    (h : Invocation.ofArguments args = .error halt) : run host env args = pure (.ofHalt halt) := by
  rw [run, h]

end Program

end Stencil
