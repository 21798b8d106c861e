import Stencil.Data.Toml.Quoted
import Stencil.Data.Toml.Scalar
import Stencil.Data.Toml.Table
import Stencil.Text.Occurrence
import Stencil.Text.Separated

/-!
# Reading TOML

A TOML text is a table, written line by line: a header opens a table or a row, and a key with a value
is put into the table that is open. Arrays and inline tables may reach over several lines and are
nested to a limited depth.
-/

namespace Stencil.Toml

open Text

/-- How deep arrays and inline tables may be nested. -/
def maxDepth : Nat := 80

/-- Whether a character may stand in a key without quotes. -/
def isBareChar (c : Char) : Bool := c.isAlphanum || c == '_' || c == '-'

/-- Characters of values that are written without quotes. -/
def isScalarChar (c : Char) : Bool := isBareChar c || c == '+' || c == '.' || c == ':'

/-- Leaves out blanks, line breaks and comments. -/
def skipFiller (inComment : Bool) : List Char → List Char
  | [] => []
  | '\x0d' :: '\n' :: s => skipFiller false s
  | c :: s =>
    if c = '\n' then skipFiller false s
    else if inComment then if isTextChar c then skipFiller true s else c :: s
    else if isBlank c then skipFiller false s
    else if c = '#' then skipFiller true s
    else c :: s

/-- Line breaks and comments stand around the items of a container, and a comma may stand behind the
last one. -/
def separation : Separation := ⟨skipFiller false, true⟩

/-- A key of one part. -/
def simpleKey? : List Char → Option (String × List Char)
  | '"' :: s => basic? s
  | '\'' :: s => literal? s
  | s =>
    let key := s.takeWhile isBareChar
    if key.isEmpty then none else some (.ofList key, s.dropWhile isBareChar)

/-- The parts of a dotted key; each takes a character, so that the length of the text is enough
`fuel`. The blanks behind the key are left out. -/
def keyParts? : Nat → List Char → Option (List String × List Char)
  | 0, _ => none
  | fuel + 1, s => do
    let (key, s) ← simpleKey? (skipBlanks s)
    match skipBlanks s with
    | '.' :: s => do
      let (keys, s) ← keyParts? fuel s
      return (key :: keys, s)
    | s => return ([key], s)

/-- A key with the path to it, and the last part. -/
def key? (s : List Char) : Option ((List String × String) × List Char) := do
  let (keys, s) ← keyParts? (s.length + 1) s
  let last ← keys.getLast?
  return ((keys.dropLast, last), s)

/-- The text of a value without quotes. A blank may stand between a date and a time. -/
def scalarText (s : List Char) : List Char × List Char :=
  let front := s.takeWhile isScalarChar
  match Date.prefix? front, s.dropWhile isScalarChar with
  | some (_, []), ' ' :: c :: s =>
    if c.isDigit then
      (front ++ ' ' :: (c :: s).takeWhile isScalarChar, (c :: s).dropWhile isScalarChar)
    else (front, ' ' :: c :: s)
  | _, rest => (front, rest)

/-- A key and its value, with an equals sign between them. -/
def pairOf? (value : List Char → Option (Datum × List Char)) (s : List Char) :
    Option (((List String × String) × Datum) × List Char) := do
  let (key, s) ← key? s
  match s with
  | '=' :: s => do
    let (d, s) ← value (skipBlanks s)
    return ((key, d), s)
  | _ => none

/-- The table of an inline table's pairs. -/
def inline? (pairs : List ((List String × String) × Datum)) : Option Datum := do
  let t ← pairs.foldlM (fun t ((path, key), d) => t.put? path key d) Table.empty
  return t.datum

/-- The value at the front of a text, with containers nested at most `depth` deep. -/
def value? (depth : Nat) (s : List Char) : Option (Datum × List Char) :=
  match s with
  | '"' :: _ => (string? s).map fun (t, rest) => (.string t, rest)
  | '\'' :: _ => (string? s).map fun (t, rest) => (.string t, rest)
  | '[' :: rest =>
    match depth with
    | 0 => none
    | depth + 1 =>
      (bracketed? separation (value? depth) ']' rest).map fun (ds, rest) => (.sequence ds, rest)
  | '{' :: rest =>
    match depth with
    | 0 => none
    | depth + 1 => do
      let (pairs, rest) ← bracketed? separation (pairOf? (value? depth)) '}' rest
      return (← inline? pairs, rest)
  | _ => do
    let (text, rest) := scalarText s
    return (← scalar? text, rest)

/-- The rest of a text behind the end of a line, which may hold a comment. -/
def endLine? (s : List Char) : Option (List Char) :=
  let rest := match skipBlanks s with
    | '#' :: s => s.dropWhile isTextChar
    | s => s
  if rest.isEmpty then some [] else afterBreak? rest

/-- The tables read so far. -/
structure Document where
  root : Table
  /-- The path of the table that is open. -/
  here : List String

namespace Document

/-- A document without a line. -/
def empty : Document := ⟨.empty, []⟩

/-- The document after the construct at the front of a line, and the rest of the text. -/
def line? (doc : Document) : List Char → Option (Document × List Char)
  | '[' :: '[' :: s => do
    let ((path, key), s) ← key? s
    let rest ← after? [']', ']'] s
    return (⟨← doc.root.openRow? path key, path ++ [key]⟩, rest)
  | '[' :: s => do
    let ((path, key), s) ← key? s
    let rest ← after? [']'] s
    return (⟨← doc.root.openTable? path key, path ++ [key]⟩, rest)
  | s => do
    let (((path, key), d), rest) ← pairOf? (value? maxDepth) s
    return ({ doc with root := ← doc.root.within? doc.here (Table.put? path key d) }, rest)

/-- The document at the end of a text. Each line takes a character, so that the length of the text is
enough `fuel`. -/
def ofLines? (doc : Document) : Nat → List Char → Option Document
  | 0, _ => none
  | fuel + 1, s =>
    match skipFiller false s with
    | [] => some doc
    | c :: s => do
      let (doc, s) ← doc.line? (c :: s)
      let s ← endLine? s
      ofLines? doc fuel s

end Document

/-- A mark that may stand before a document. -/
def byteOrderMark : Char := '\ufeff'

/-- The data tree of a TOML text. -/
def read? (text : String) : Option Datum := do
  let s := match text.toList with
    | [] => []
    | c :: s => if c = byteOrderMark then s else c :: s
  let doc ← Document.empty.ofLines? (s.length + 1) s
  return doc.root.datum

end Stencil.Toml
