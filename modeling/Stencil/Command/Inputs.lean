import Stencil.Data.Context
import Stencil.Data.Format
import Stencil.Files.Host
import Stencil.Report.Problem
import Stencil.Settings

/-!
# Inputs of commands

Templates, data files and settings, read through a host. A file that cannot be read or does not hold
what it should is a problem, which says what was being read.
-/

namespace Stencil

/-- A computation that may end with a problem. -/
abbrev Attempt (m : Type → Type) := ExceptT Problem m

/-- The environment of a command. -/
structure Environment where
  /-- The user's own folder, where it is known. -/
  home : Option String
  /-- A path of the settings that stands in for the usual one, unless it is empty. -/
  settingsPath : Option String

namespace Attempt

variable {m : Type → Type} [Monad m] {α : Type}

/-- A file operation, whose fault is a problem under a layer of text. -/
def ofFile (layer : Option String) (x : m (Except FileFault α)) : Attempt m α := do
  match ← (x : m (Except FileFault α)) with
  | .ok a => return a
  | .error fault =>
    let p := Problem.ofFile fault
    throw ((layer.map p.within).getD p)

end Attempt

namespace Inputs

variable {m : Type → Type} [Monad m]

/-- A content as text, which has to be UTF-8. -/
def decode (content : Except FileFault ByteArray) : Except FileFault String :=
  match content with
  | .error fault => .error fault
  | .ok bytes =>
    match String.fromUTF8? bytes with
    | some text => .ok text
    | none => .error .notText

/-- The text of a file; a fault is reported under a layer that says what was being read. -/
def readText (host : Host m) (layer path : String) : Attempt m String :=
  Attempt.ofFile (some layer) (decode <$> host.readFile path)

/-- The text of a file, or the standard input. -/
def readInput (host : Host m) (path : String) : Attempt m String :=
  if FilePath.isStandard path then
    Attempt.ofFile (some "Failed to read from stdin") (decode <$> host.readInput)
  else readText host ("Failed to read '" ++ path ++ "'") path

/-- The context of one data file. -/
def readContext (host : Host m) (path : String) : Attempt m Context := do
  match DataFormat.ofPath path with
  | .error ending => throw (.ofCause (.unknownFormat path ending))
  | .ok format =>
    let text ← readInput host path
    match format.read? text with
    | none => throw (.ofCause (.data path format.name ("not a valid " ++ format.name ++ " text")))
    | some d => return .ofValue (.ofDatum d)

/-- The context of several data files in order. -/
def readContexts (host : Host m) (paths : List String) : Attempt m Context :=
  paths.foldlM (fun c path => do return c.append (← readContext host path)) .empty

/-- Where the settings are kept, unless a path is given. -/
def settingsPath (env : Environment) (given : Option String) : Attempt m String :=
  match given, env.settingsPath, env.home with
  | some path, _, _ => return path
  | none, some path, home =>
    if path ≠ "" then return path else inHome home
  | none, none, home => inHome home
where
  inHome : Option String → Attempt m String
    | some home => return FilePath.join (FilePath.join home ".uxr") "config.toml"
    | none => throw (.ofMessage "Unable to determine home directory")

/-- The settings at a path; the default ones where there is nothing. -/
def readSettings (host : Host m) (path : String) : Attempt m Settings := do
  if ← (host.hasPath path : m Bool) then
    let text ← readText host ("Failed to read config from " ++ path) path
    match Settings.ofText? text with
    | some settings => return settings
    | none =>
      throw ((Problem.ofCause (.foreign (.toml "not valid settings"))).within
        ("Failed to parse config from " ++ path))
  else return .default

end Inputs

end Stencil
