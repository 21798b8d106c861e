import Stencil.Command.Arguments

/-!
# Invocations

An invocation is a command with what was given for it. The options for logging and for the settings may
be given before the name of a command or behind it, and what is given further in counts.
-/

namespace Stencil

/-- The commands, with what was given for each of them. -/
inductive Command where
  | render (template : String) (data : List String) (output : Option String)
  | check (template : String) (strict json : Bool)
  | escape (selector : String)
  | showSettings
  | settingsPath
  | initSettings (force : Bool)
  deriving DecidableEq

/-- How much is logged. -/
inductive LogLevel where
  | debug
  | warn
  | error
  deriving DecidableEq

namespace LogLevel

/-- The name of a level, as the logging library has it. -/
def name : LogLevel → String
  | debug => "debug"
  | warn => "warn"
  | error => "error"

end LogLevel

/-- A command, and the options that are common to all commands. -/
structure Invocation where
  command : Command
  logLevel : LogLevel
  config : Option String
  deriving DecidableEq

namespace Invocation

/-- The switch that asks for help, which stands at every level. -/
def helpSwitch : Option Char × String × Switch := (some 'h', "help", .help)

/-- The switches of every level. -/
def commonSwitches : List (Option Char × String × Switch) :=
  [(some 'v', "verbose", .verbose), (some 'q', "quiet", .quiet), helpSwitch]

/-- The options of every level. -/
def commonOptions : List (Option Char × String × Slot) := [(some 'c', "config", .config)]

/-- The commands on the settings. -/
def settingsCommands : List String := ["show", "path", "init", "help"]

/-- The outermost level, at which the version can be asked for. -/
def program : Grammar :=
  { switches := commonSwitches ++ [(some 'V', "version", .version)]
    options := commonOptions
    operands := []
    commands := ["render", "check", "escape", "config", "help"] }

/-- A level with switches and options of its own. -/
def level (switches : List (Option Char × String × Switch))
    (options : List (Option Char × String × Slot)) (operands : List Slot) : Grammar :=
  ⟨commonSwitches ++ switches, commonOptions ++ options, operands, []⟩

/-- The level of rendering. -/
def renderLevel : Grammar :=
  level [] [(some 'd', "data", .data), (some 'o', "output", .output)] [.template]

/-- The level of checking. -/
def checkLevel : Grammar :=
  level [(none, "strict", .strict), (none, "json", .json)] [] [.template]

/-- The level of escaping. -/
def escapeLevel : Grammar := level [] [] [.selector]

/-- The level of the settings, which has commands of its own. -/
def settingsLevel : Grammar := { level [] [] [] with commands := settingsCommands }

/-- The level of writing the first settings. -/
def initLevel : Grammar := level [(none, "force", .force)] [] []

/-- The arguments of a level without commands. -/
def leaf (gr : Grammar) (args : List String) : Except Halt Given := do
  let (g, _) ← gr.start args
  g.finish gr.operands

/-- Help on a command, if there is such a command. -/
def help : List String → Halt
  | [] => .information
  | ["config", name] => if settingsCommands.contains name then .information else .misuse
  | [name] => if program.commands.contains name then .information else .misuse
  | _ => .misuse

/-- Help on a command on the settings. -/
def settingsHelp : List String → Halt
  | [] => .information
  | [name] => if settingsCommands.contains name then .information else .misuse
  | _ => .misuse

/-- The command on the settings, and what was given at its levels from the outermost in. -/
def settingsCommand (args : List String) : Except Halt (Command × List Given) := do
  let (g, rest) ← settingsLevel.start args
  let (command, inner) ← match rest with
    | none => .ok (.showSettings, [])
    | some ("show", args) => do .ok (.showSettings, [← leaf (level [] [] []) args])
    | some ("path", args) => do .ok (.settingsPath, [← leaf (level [] [] []) args])
    | some ("init", args) => do
      let h ← leaf initLevel args
      .ok (.initSettings (h.switches.contains .force), [h])
    | some (_, args) => .error (settingsHelp args)
  return (command, (← g.finish []) :: inner)

/-- The command with the given name, and what was given at its levels. -/
def commandNamed (name : String) (args : List String) : Except Halt (Command × List Given) :=
  if name = "render" then do
    let g ← leaf renderLevel args
    let data := (g.values.filter (·.1 = .data)).map Prod.snd
    return (.render ((g.value? .template).getD "") data (g.value? .output), [g])
  else if name = "check" then do
    let g ← leaf checkLevel args
    return (.check ((g.value? .template).getD "") (g.switches.contains .strict)
      (g.switches.contains .json), [g])
  else if name = "escape" then do
    let g ← leaf escapeLevel args
    return (.escape ((g.value? .selector).getD ""), [g])
  else if name = "config" then settingsCommand args
  else .error (help args)

/-- The innermost value of an option. -/
def innermost? (levels : List Given) (slot : Slot) : Option String :=
  levels.reverse.findSome? (·.value? slot)

/-- Whether a switch is given at one of the levels. -/
def isGiven (levels : List Given) (s : Switch) : Bool := levels.any (·.switches.contains s)

/-- The invocation that the arguments make up. The more verbose level of logging goes before the quiet
one. -/
def ofArguments (args : List String) : Except Halt Invocation := do
  let (g, rest) ← program.start args
  match rest with
  | none => .error .misuse
  | some (name, args) =>
    let (command, inner) ← commandNamed name args
    let levels := (← g.finish []) :: inner
    let logLevel : LogLevel := if isGiven levels .verbose then .debug
      else if isGiven levels .quiet then .error
      else .warn
    return ⟨command, logLevel, innermost? levels .config⟩

end Invocation

end Stencil
