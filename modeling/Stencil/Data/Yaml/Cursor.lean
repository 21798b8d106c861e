/-!
# Places in a YAML text

YAML text is laid out in lines and columns. A cursor is what is left of a text, with the place where it
starts; a line break may be written in several ways, and starts a new line in any of them.
-/

namespace Stencil.Yaml

/-- A place in a text. -/
structure Mark where
  /-- Characters before the place. -/
  index : Nat
  line : Nat
  column : Nat
  deriving DecidableEq

namespace Mark

/-- The place before the first character. -/
def start : Mark := ⟨0, 0, 0⟩

/-- The place `n` characters further on the line. -/
def right (m : Mark) (n : Nat) : Mark := ⟨m.index + n, m.line, m.column + n⟩

/-- The place behind a line break of `n` characters. -/
def down (m : Mark) (n : Nat) : Mark := ⟨m.index + n, m.line + 1, 0⟩

end Mark

/-- Whether a character is a space or a tab. -/
def isBlank (c : Char) : Bool := c == ' ' || c == '\t'

/-- Whether a character breaks a line. -/
def isBreak (c : Char) : Bool :=
  c == '\n' || c == '\x0d' || c == '\u0085' || c == '\u2028' || c == '\u2029'

/-- Whether a character is a blank or breaks a line. -/
def isSpace (c : Char) : Bool := isBlank c || isBreak c

/-- What a line break of one character is in a scalar. Line and paragraph separators stay what they
are. -/
def breakText (c : Char) : Char := if c == '\u2028' || c == '\u2029' then c else '\n'

/-- Whether a text has a blank, a line break or nothing at its front. -/
def atSpace : List Char → Bool
  | [] => true
  | c :: _ => isSpace c

/-- A place in a text, with what stands behind it. -/
structure Cursor where
  mark : Mark
  rest : List Char

namespace Cursor

/-- The cursor before a whole text. -/
def ofText (s : List Char) : Cursor := ⟨.start, s⟩

/-- The cursor `n` characters further; none of them is a line break. -/
def skip (c : Cursor) (n : Nat) : Cursor := ⟨c.mark.right n, c.rest.drop n⟩

/-- The cursor at a later place of the same line, where `rest` is left. -/
def upTo (c : Cursor) (rest : List Char) : Cursor :=
  ⟨c.mark.right (c.rest.length - rest.length), rest⟩

/-- The line break at the cursor, as it is in a scalar, and what is behind it. -/
def afterBreak? (c : Cursor) : Option (Char × Cursor) :=
  match c.rest with
  | '\x0d' :: '\n' :: s => some ('\n', ⟨c.mark.down 2, s⟩)
  | d :: s => if isBreak d then some (breakText d, ⟨c.mark.down 1, s⟩) else none
  | [] => none

/-- The cursor behind the blanks before it. -/
def skipBlanks (c : Cursor) : Cursor := c.upTo (c.rest.dropWhile isBlank)

/-- The cursor behind a comment, if there is one. -/
def skipComment (c : Cursor) : Cursor :=
  match c.rest with
  | '#' :: _ => c.upTo (c.rest.dropWhile fun d => !isBreak d)
  | _ => c

/-- The cursor behind the end of its line, before which only a comment may stand. -/
def endLine? (c : Cursor) : Option Cursor :=
  let c := c.skipBlanks.skipComment
  match c.rest with
  | [] => some c
  | _ => c.afterBreak?.map Prod.snd

/-- Whether a mark of three given characters stands alone at the start of the line. -/
def atMark (c : Cursor) (mark : Char) : Bool :=
  c.mark.column == 0 && c.rest.take 3 == [mark, mark, mark] && atSpace (c.rest.drop 3)

/-- Whether a document starts or ends at the cursor. -/
def atDocumentMark (c : Cursor) : Bool := c.atMark '-' || c.atMark '.'

end Cursor

/-- Leaves out blanks, line breaks and comments before a token. Outside flow collections a line break
allows a key to start, and where a key may start a tab is not a blank. The answer tells whether one
may. -/
def skipFiller (inFlow keyAllowed inComment : Bool) (mark : Mark) : List Char → Bool × Cursor
  | [] => (keyAllowed, ⟨mark, []⟩)
  | '\x0d' :: '\n' :: s => skipFiller inFlow (keyAllowed || !inFlow) false (mark.down 2) s
  | c :: s =>
    if isBreak c then skipFiller inFlow (keyAllowed || !inFlow) false (mark.down 1) s
    else if inComment then skipFiller inFlow keyAllowed true (mark.right 1) s
    else if c = ' ' ∨ (c = '\t' ∧ (inFlow ∨ !keyAllowed)) then
      skipFiller inFlow keyAllowed false (mark.right 1) s
    else if c = '#' then skipFiller inFlow keyAllowed true (mark.right 1) s
    else (keyAllowed, ⟨mark, c :: s⟩)

end Stencil.Yaml
