import Stencil.Text.Hexadecimal

/-!
# TOML strings

Strings in double quotes have escapes, strings in single quotes have none. Either kind is written on
one line between single marks, or over several lines between triple marks, where a line break right
behind the opening mark is not part of the string.
-/

namespace Stencil.Toml

open Text

/-- Characters that stand in a text for themselves; line breaks are not among them. -/
def isTextChar (c : Char) : Bool := c == '\t' || (decide (0x20 ≤ c.toNat) && c != '\x7f')

/-- Whether a character may stand between the tokens of a line. -/
def isBlank (c : Char) : Bool := c == ' ' || c == '\t'

/-- What is left behind leading blanks. -/
def skipBlanks (s : List Char) : List Char := s.dropWhile isBlank

/-- The rest of a text behind a line break. -/
def afterBreak? : List Char → Option (List Char)
  | '\n' :: s => some s
  | '\x0d' :: '\n' :: s => some s
  | _ => none

/-- Leaves out blanks and line breaks. -/
def skipSpace : List Char → List Char
  | '\x0d' :: '\n' :: s => skipSpace s
  | c :: s => if isBlank c || c == '\n' then skipSpace s else c :: s
  | [] => []

/-- The character that an escape stands for, behind its backslash. -/
def escape? : List Char → Option (Char × List Char)
  | 'b' :: s => some ('\x08', s)
  | 't' :: s => some ('\t', s)
  | 'n' :: s => some ('\n', s)
  | 'f' :: s => some ('\x0c', s)
  | 'r' :: s => some ('\x0d', s)
  | 'e' :: s => some ('\x1b', s)
  | '"' :: s => some ('"', s)
  | '\\' :: s => some ('\\', s)
  | 'x' :: s => hexChar? 2 s
  | 'u' :: s => hexChar? 4 s
  | 'U' :: s => hexChar? 8 s
  | _ => none

/-- What follows a backslash at the end of a line, from the next character that is not a blank or a
line break. -/
def continuation? (s : List Char) : Option (List Char) := (afterBreak? (skipBlanks s)).map skipSpace

/-- The rest of a string in double quotes on one line. `seen` holds, in reverse, what was read of
it. -/
def basicFrom? (seen : List Char) : Nat → List Char → Option (String × List Char)
  | 0, _ => none
  | _ + 1, [] => none
  | fuel + 1, c :: s =>
    if c = '"' then some (.ofList seen.reverse, s)
    else if c = '\\' then do
      let (d, s) ← escape? s
      basicFrom? (d :: seen) fuel s
    else if isTextChar c then basicFrom? (c :: seen) fuel s
    else none

/-- A text in double quotes, on one line. -/
def basic? (s : List Char) : Option (String × List Char) := basicFrom? [] (s.length + 1) s

/-- The rest of a string in single quotes on one line. -/
def literal? (s : List Char) : Option (String × List Char) :=
  let text := s.takeWhile fun c => c != '\'' && isTextChar c
  match s.dropWhile fun c => c != '\'' && isTextChar c with
  | '\'' :: rest => some (.ofList text, rest)
  | _ => none

/-- How many of the marks in a run close a string, and how many stand at its end for themselves. At
most two of them may. -/
def closing? (marks : Nat) : Option Nat := if 3 ≤ marks ∧ marks ≤ 5 then some (marks - 3) else none

/-- The rest of a string of several lines, closed by three marks. -/
def multilineFrom? (mark : Char) (seen : List Char) : Nat → List Char → Option (String × List Char)
  | 0, _ => none
  | _ + 1, [] => none
  | fuel + 1, c :: s =>
    if c = mark then
      let marks := (s.takeWhile (· == mark)).length + 1
      let rest := s.dropWhile (· == mark)
      if marks < 3 then multilineFrom? mark (List.replicate marks mark ++ seen) fuel rest
      else do
        let kept ← closing? marks
        return (.ofList (List.replicate kept mark ++ seen).reverse, rest)
    else if c = '\\' ∧ mark = '"' then
      match continuation? s with
      | some rest => multilineFrom? mark seen fuel rest
      | none => do
        let (d, s) ← escape? s
        multilineFrom? mark (d :: seen) fuel s
    else if isTextChar c || c == '\n' then multilineFrom? mark (c :: seen) fuel s
    else
      match c, s with
      | '\x0d', '\n' :: s => multilineFrom? mark ('\n' :: '\x0d' :: seen) fuel s
      | _, _ => none

/-- A string of several lines, behind its opening marks. -/
def multiline? (mark : Char) (s : List Char) : Option (String × List Char) :=
  multilineFrom? mark [] (s.length + 1) ((afterBreak? s).getD s)

/-- The string at the front of a text, from its opening mark on. -/
def string? : List Char → Option (String × List Char)
  | '"' :: '"' :: '"' :: s => multiline? '"' s
  | '\'' :: '\'' :: '\'' :: s => multiline? '\'' s
  | '"' :: s => basic? s
  | '\'' :: s => literal? s
  | _ => none

end Stencil.Toml
