import Stencil.Data.Yaml.Cursor

/-!
# Gaps between words

Blanks and line breaks inside a scalar that is not written line by line. Blanks within a line are
kept; around line breaks they are dropped, one line break is folded to a blank, and of several the
first is dropped.
-/

namespace Stencil.Yaml

/-- The white space between two words of a scalar, which is folded. -/
structure Gap where
  /-- Blanks before the first line break, in reverse. -/
  blanks : List Char
  /-- The first line break, where there is one; an escaped line break is empty. -/
  first : Option (List Char)
  /-- The other line breaks, in reverse. -/
  others : List Char

namespace Gap

/-- No white space. -/
def empty : Gap := ⟨[], none, []⟩

/-- The gap that starts with an escaped line break. -/
def escaped : Gap := ⟨[], some [], []⟩

/-- One more blank, which counts only before the first line break. -/
def addBlank (g : Gap) (c : Char) : Gap :=
  if g.first.isNone then { g with blanks := c :: g.blanks } else g

/-- One more line break. -/
def addBreak (g : Gap) (c : Char) : Gap :=
  match g.first with
  | none => ⟨[], some [c], []⟩
  | some _ => { g with others := c :: g.others }

/-- What stands in the scalar for the gap. -/
def text (g : Gap) : List Char :=
  match g.first with
  | none => g.blanks.reverse
  | some ['\n'] => if g.others.isEmpty then [' '] else g.others.reverse
  | some first => first ++ g.others.reverse

/-- The gap at the front of a text. Behind its first line break no tab may stand before column
`limit`. -/
def read? (limit : Nat) (g : Gap) (mark : Mark) : List Char → Option (Gap × Cursor)
  | [] => some (g, ⟨mark, []⟩)
  | '\x0d' :: '\n' :: s => read? limit (g.addBreak '\n') (mark.down 2) s
  | c :: s =>
    if isBreak c then read? limit (g.addBreak (breakText c)) (mark.down 1) s
    else if isBlank c then
      if c = '\t' ∧ g.first.isSome ∧ mark.column < limit then none
      else read? limit (g.addBlank c) (mark.right 1) s
    else some (g, ⟨mark, c :: s⟩)

end Gap

end Stencil.Yaml
