import Stencil.Data.Datum
import Stencil.Number.Shortest

/-!
# Writing JSON

A data tree with one item or member on a line, indented by two blanks for each level. Strings escape
quotes, backslashes and control characters, and nothing else.
-/

namespace Stencil.Json

/-- Four hexadecimal digits of a code unit. -/
def hexPadded (n : Nat) : List Char :=
  let ds := Nat.toDigits 16 n
  List.replicate (4 - ds.length) '0' ++ ds

/-- A character of a text as it is written. -/
def escapeChar (c : Char) : List Char :=
  match c with
  | '"' => ['\\', '"']
  | '\\' => ['\\', '\\']
  | '\x08' => ['\\', 'b']
  | '\x0c' => ['\\', 'f']
  | '\n' => ['\\', 'n']
  | '\x0d' => ['\\', 'r']
  | '\t' => ['\\', 't']
  | c => if c.toNat < 0x20 then '\\' :: 'u' :: hexPadded c.toNat else [c]

/-- A text between double quotes. -/
def writeString (s : String) : String := .ofList ('"' :: s.toList.flatMap escapeChar ++ ['"'])

/-- A new line at a level of nesting. -/
def newLine (level : Nat) : String := "\n" ++ .ofList (List.replicate (2 * level) ' ')

/-- Parts of a container between its brackets, each on a line of its own. -/
def bracketed (level : Nat) (opening closing : String) (parts : List String) : String :=
  if parts.isEmpty then opening ++ closing
  else
    opening ++ newLine (level + 1) ++ String.intercalate ("," ++ newLine (level + 1)) parts ++
      newLine level ++ closing

mutual

/-- A value that stands at a level of nesting. What is nested in it is written a level further in. -/
def writeAt (level : Nat) : Datum → String
  | .null => "null"
  | .bool b => if b then "true" else "false"
  | .integer n => toString n
  | .real x => x.text
  | .string s => writeString s
  | .sequence items => bracketed level "[" "]" (writeItems (level + 1) items)
  | .mapping fields => bracketed level "\x7b" "\x7d" (writeFields (level + 1) fields)

/-- The items of a sequence. -/
def writeItems (level : Nat) : List Datum → List String
  | [] => []
  | d :: ds => writeAt level d :: writeItems level ds

/-- The fields of a mapping. -/
def writeFields (level : Nat) : List (String × Datum) → List String
  | [] => []
  | (name, d) :: fields => (writeString name ++ ": " ++ writeAt level d) :: writeFields level fields

end

/-- A value over several lines. -/
def write (d : Datum) : String := writeAt 0 d

end Stencil.Json
