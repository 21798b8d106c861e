/-!
# Lines

A line ends with a line feed, and a carriage return right before that line feed belongs to the line
ending. A text that ends with a line feed has no empty line after it.
-/

namespace Stencil.Text

/-- What ends a line. -/
def lineFeed : Char := '\n'

/-- A line whose characters are given in reverse, without the carriage return of its ending. -/
def closeLine : List Char → List Char
  | '\r' :: line => line.reverse
  | line => line.reverse

/-- The lines of `s`, where `line` holds in reverse what precedes `s` on its first line. -/
def linesFrom (line : List Char) : List Char → List (List Char)
  | [] => if line.isEmpty then [] else [line.reverse]
  | c :: s => if c = lineFeed then closeLine line :: linesFrom [] s else linesFrom (c :: line) s

/-- The lines of a text, without what ends them. -/
def lines (s : List Char) : List (List Char) := linesFrom [] s

/-- The characters after the last line feed. -/
def lastLine (s : List Char) : List Char :=
  (s.reverse.takeWhile (· != lineFeed)).reverse

end Stencil.Text
