import Stencil.Data.Json.Numeral
import Stencil.Text.Hexadecimal
import Stencil.Text.Occurrence
import Stencil.Text.Separated

/-!
# Reading JSON

A JSON text is one value with blanks around it. Strings hold no control characters, a surrogate
escape stands for a character only as the first half of a pair, and containers are nested to a limited
depth. Of two members with one name the later counts.
-/

namespace Stencil.Json

open Text

/-- Whether a character may stand between tokens. -/
def isBlank (c : Char) : Bool := c == ' ' || c == '\n' || c == '\t' || c == '\x0d'

/-- What is left behind leading blanks. -/
def skipBlanks (s : List Char) : List Char := s.dropWhile isBlank

/-- How deep arrays and objects may be nested. -/
def maxDepth : Nat := 127

/-- Whether a code unit is the first of a pair. -/
def isHighSurrogate (n : Nat) : Bool := 0xD800 ≤ n && n ≤ 0xDBFF

/-- Whether a code unit is the second of a pair. -/
def isLowSurrogate (n : Nat) : Bool := 0xDC00 ≤ n && n ≤ 0xDFFF

/-- The character of an escape by code units, behind its `\u`. -/
def unicodeEscape? (s : List Char) : Option (Char × List Char) := do
  let (n, rest) ← hexPrefix? 4 s
  if isLowSurrogate n then none
  else if isHighSurrogate n then
    match rest with
    | '\\' :: 'u' :: rest => do
      let (m, rest) ← hexPrefix? 4 rest
      if isLowSurrogate m then
        return (.ofNat (0x10000 + (n - 0xD800) * 0x400 + (m - 0xDC00)), rest)
      else none
    | _ => none
  else return (.ofNat n, rest)

/-- The character that a letter stands for behind a backslash. -/
def escaped? (c : Char) : Option Char :=
  match c with
  | '"' => some '"'
  | '\\' => some '\\'
  | '/' => some '/'
  | 'b' => some '\x08'
  | 'f' => some '\x0c'
  | 'n' => some '\n'
  | 'r' => some '\x0d'
  | 't' => some '\t'
  | _ => none

/-- The rest of a string behind its opening quote; `seen` holds, in reverse, what was read of it. Each
character of the string takes at least one of the text, so that the length of the text is enough
`fuel`. -/
def stringFrom? (seen : List Char) : Nat → List Char → Option (String × List Char)
  | 0, _ => none
  | _ + 1, [] => none
  | fuel + 1, c :: s =>
    if c = '"' then some (.ofList seen.reverse, s)
    else if c = '\\' then
      match s with
      | 'u' :: s => do
        let (d, s) ← unicodeEscape? s
        stringFrom? (d :: seen) fuel s
      | e :: s => do
        let d ← escaped? e
        stringFrom? (d :: seen) fuel s
      | [] => none
    else if c.toNat < 0x20 then none
    else stringFrom? (c :: seen) fuel s

/-- A text between double quotes. -/
def string? : List Char → Option (String × List Char)
  | '"' :: s => stringFrom? [] (s.length + 1) s
  | _ => none

/-- Blanks stand around the items of a container, and a comma only between two of them. -/
def separation : Separation := ⟨skipBlanks, false⟩

/-- A member of an object: its name, a colon and its value. -/
def member? {α : Type} (value : List Char → Option (α × List Char)) (s : List Char) :
    Option ((String × α) × List Char) := do
  let (name, s) ← string? s
  match skipBlanks s with
  | ':' :: s => do
    let (a, s) ← value (skipBlanks s)
    return ((name, a), s)
  | _ => none

/-- A value that is written as a word. -/
def word? (word : List Char) (d : Datum) (s : List Char) : Option (Datum × List Char) :=
  (after? word s).map (d, ·)

/-- The value at the front of a text, with containers nested at most `depth` deep. -/
def value? (depth : Nat) (s : List Char) : Option (Datum × List Char) :=
  match s with
  | '"' :: _ => (string? s).map fun (t, rest) => (.string t, rest)
  | 'n' :: _ => word? "null".toList .null s
  | 't' :: _ => word? "true".toList (.bool true) s
  | 'f' :: _ => word? "false".toList (.bool false) s
  | '[' :: rest =>
    match depth with
    | 0 => none
    | depth + 1 => (bracketed? separation (value? depth) ']' rest).map fun (ds, rest) => (.sequence ds, rest)
  | '{' :: rest =>
    match depth with
    | 0 => none
    | depth + 1 =>
      (bracketed? separation (member? (value? depth)) '}' rest).map fun (ms, rest) =>
        (.mapping (Fields.ofPairs ms), rest)
  | _ => numeral? s

/-- The data tree of a JSON text. -/
def read? (text : String) : Option Datum := do
  let (d, rest) ← value? maxDepth (skipBlanks text.toList)
  if (skipBlanks rest).isEmpty then some d else none

end Stencil.Json
