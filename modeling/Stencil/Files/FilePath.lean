import Stencil.Text.Occurrence

/-!
# File paths

A file path is a list of names, from the root of the file system or from the current folder. A point
leads nowhere and is left out, save at the front.
-/

namespace Stencil

/-- A path as it is split into names, from the root or from the current folder. -/
structure FilePath where
  absolute : Bool
  names : List String
  deriving DecidableEq

namespace FilePath

/-- A name that stands for a file or a folder in its folder: not one of the ways to stay or to go up, and
without a slash. -/
def IsName (name : String) : Prop := name ∉ ["", ".", ".."] ∧ '/' ∉ name.toList

instance (name : String) : Decidable (IsName name) :=
  inferInstanceAs (Decidable (_ ∧ _))

/-- The parts of a path between slashes; a path that starts with one has an empty first part. -/
def parts (text : String) : List String := (text.toList.splitOn '/').map String.ofList

/-- The path that a text stands for. -/
def ofText (text : String) : FilePath :=
  match parts text with
  | [] => ⟨false, []⟩
  | first :: rest =>
    let rest := rest.filter fun part => part ≠ "" && part ≠ "."
    ⟨first = "" && text ≠ "", if first = "" then rest else first :: rest⟩

/-- A path as it is written. -/
def text (p : FilePath) : String :=
  (if p.absolute then "/" else "") ++ String.intercalate "/" p.names

/-- The path of the folder around; the root and the current folder have none. -/
def parent? (p : FilePath) : Option FilePath :=
  if p.names.isEmpty then none else some { p with names := p.names.dropLast }

/-- The name of the file that a path leads to; the way up is no name, nor is the place itself. -/
def fileName? (p : FilePath) : Option String :=
  p.names.getLast?.filter fun name => name ≠ ".." && name ≠ "."

/-- The ending of a file name, behind its last point. A point at the front starts no ending. -/
def ending? (name : String) : Option String :=
  match Text.split? ['.'] [] name.toList.reverse with
  | some (_, []) => none
  | some (back, _) => some (.ofList back.reverse)
  | none => none

/-- A path followed by one more name. -/
def join (text name : String) : String :=
  if text = "" then name
  else if text.endsWith "/" then text ++ name
  else text ++ "/" ++ name

/-- The path that stands for standard input and output. -/
def standard : String := "-"

/-- Whether a path stands for the standard input or output. -/
def isStandard (text : String) : Bool := decide (ofText text = ⟨false, [standard]⟩)

end FilePath

end Stencil
