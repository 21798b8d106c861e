import Stencil.Data.Yaml.Cursor

/-!
# Block scalars

Scalars written line by line at a common indentation, which is that of the first line that is not
blank unless it is given. The lines of a folded scalar are joined where neither starts with a blank.
How the line breaks at the end are treated is given in front.
-/

namespace Stencil.Yaml

/-- What becomes of the line breaks at the end of a block scalar. -/
inductive Chomping where
  | clip
  | strip
  | keep
  deriving DecidableEq

/-- What the first line of a block scalar says about it. -/
structure BlockHeader where
  chomping : Chomping
  /-- The indentation relative to the enclosing collection, where it is given. -/
  indent : Option Nat

namespace BlockHeader

/-- A sign of chomping at the beginning of a text. -/
def chomping? : List Char → Option (Chomping × List Char)
  | '+' :: s => some (.keep, s)
  | '-' :: s => some (.strip, s)
  | _ => none

/-- A digit that gives an indentation; zero is none. -/
def indent? : List Char → Option (Option Nat × List Char)
  | c :: s =>
    if c = '0' then none
    else if c.isDigit then some (some (c.toNat - '0'.toNat), s)
    else some (none, c :: s)
  | [] => some (none, [])

/-- The header behind its indicator, its parts in any order. -/
def read? (s : List Char) : Option (BlockHeader × List Char) :=
  match chomping? s with
  | some (chomping, s) => do
    let (indent, s) ← indent? s
    return (⟨chomping, indent⟩, s)
  | none => do
    let (indent, s) ← indent? s
    match indent, chomping? s with
    | some _, some (chomping, s) => return (⟨chomping, indent⟩, s)
    | _, _ => return (⟨.clip, indent⟩, s)

end BlockHeader

/-- Whether the indentation goes on at a column; a missing indentation is yet to be found. -/
def isBefore (column : Nat) (indent : Option Nat) : Bool := indent.all (column < ·)

/-- Empty lines and the indentation behind them: the line breaks, in reverse, the greatest column
reached, and the cursor. A tab may not stand in the indentation. -/
def indentation? (indent : Option Nat) (breaks : List Char) (widest : Nat) (mark : Mark) :
    List Char → Option (List Char × Nat × Cursor)
  | [] => some (breaks, max widest mark.column, ⟨mark, []⟩)
  | '\x0d' :: '\n' :: s =>
    indentation? indent ('\n' :: breaks) (max widest mark.column) (mark.down 2) s
  | c :: s =>
    if c = ' ' ∧ isBefore mark.column indent then
      indentation? indent breaks widest (mark.right 1) s
    else
      let widest := max widest mark.column
      if c = '\t' ∧ isBefore mark.column indent then none
      else if isBreak c then
        indentation? indent (breakText c :: breaks) widest (mark.down 1) s
      else some (breaks, widest, ⟨mark, c :: s⟩)

/-- The lines of a block scalar read so far. -/
structure BlockBody where
  /-- The text of the lines, in reverse. -/
  seen : List Char
  /-- The line break behind the last line; there is none at the end of the text. -/
  last : Option Char
  /-- The line breaks of the empty lines behind it, in reverse. -/
  breaks : List Char
  /-- Whether the last line starts with a blank. -/
  indented : Bool

namespace BlockBody

/-- The line break that ends the last line, if there is one. -/
def lastBreak (b : BlockBody) : List Char := b.last.toList

/-- What stands between the last line and the next one. -/
def joint (literal nextIndented : Bool) (b : BlockBody) : List Char :=
  let folded := !literal && b.last == some '\n' && !b.indented && !nextIndented
  let first := if !folded then b.lastBreak else if b.breaks.isEmpty then [' '] else []
  first ++ b.breaks.reverse

/-- The text of the scalar at its end. -/
def chomped (chomping : Chomping) (b : BlockBody) : String :=
  match chomping with
  | .strip => .ofList b.seen.reverse
  | .clip => .ofList (b.seen.reverse ++ b.lastBreak)
  | .keep => .ofList (b.seen.reverse ++ b.lastBreak ++ b.breaks.reverse)

/-- The body with the lines from the cursor on that are indented as `indent` says. Each line takes a
character, so that the length of the text is enough `fuel`. -/
def lines? (literal : Bool) (indent : Nat) (b : BlockBody) : Nat → Cursor → Option (BlockBody × Cursor)
  | 0, _ => none
  | fuel + 1, c =>
    if c.mark.column ≠ indent ∨ c.rest.isEmpty then some (b, c)
    else do
      let blank := c.rest.head?.any isBlank
      let line := c.rest.takeWhile fun d => !isBreak d
      let seen := line.reverse ++ (b.joint literal blank).reverse ++ b.seen
      let c := c.skip line.length
      let (last, c) := match c.afterBreak? with
        | some (d, c) => (some d, c)
        | none => (none, c)
      let (breaks, _, c) ← indentation? (some indent) [] 0 c.mark c.rest
      lines? literal indent ⟨seen, last, breaks, blank⟩ fuel c

end BlockBody

/-- A block scalar from its indicator on. `parent` is the column where the content of the enclosing
collection would start. -/
def block? (literal : Bool) (parent : Nat) (base : Nat) (c : Cursor) : Option (String × Cursor) := do
  let (header, rest) ← BlockHeader.read? (c.rest.drop 1)
  let c ← (c.upTo rest).endLine?
  let given := header.indent.map (base + ·)
  let (breaks, widest, c) ← indentation? given [] 0 c.mark c.rest
  let indent := given.getD (max (max widest parent) 1)
  let (body, c) ← BlockBody.lines? literal indent ⟨[], none, breaks, false⟩ (c.rest.length + 1) c
  return (body.chomped header.chomping, c)

end Stencil.Yaml
