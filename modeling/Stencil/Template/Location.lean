import Stencil.Text.Bytes
import Stencil.Text.Lines

/-!
# Locations

Where in a template something stands: its line and column, both counted from one, and the lines
around it. Columns count characters; offsets count bytes.

* `Window.of?_small`: a window of a size whose sums are machine words reaches as far as it is asked to on
  both sides.
-/

namespace Stencil

open Text

/-- The numbers of the first and of the last line shown, less one for the first. -/
structure Window where
  start : Nat
  stop : Nat
  deriving DecidableEq

namespace Window

/-- The window of `size` lines on either side of `line` in a text of `total` lines. Sizes are
machine words and so are the sums, which wrap around; there is no window that ends before it
starts. -/
def of? (total line : Nat) (size : UInt64) : Option Window :=
  let start := line - (size + 1).toNat
  let stop := min (line.toUInt64 + size).toNat total
  if start ≤ stop then some ⟨start, stop⟩ else none

theorem toNat_line_add {line : Nat} {size : UInt64} (hline : line < UInt64.size) :
    (line.toUInt64 + size).toNat = (line + size.toNat) % UInt64.size := by
  rw [UInt64.toNat_add, Nat.toUInt64_eq, UInt64.toNat_ofNat', Nat.mod_eq_of_lt hline]

theorem of?_small {total line : Nat} {size : UInt64} (hpos : 0 < line) (hline : line ≤ total)
    (hsize : line + size.toNat < UInt64.size) :
    of? total line size = some ⟨line - (size.toNat + 1), min (line + size.toNat) total⟩ := by
  have h1 : (size + 1).toNat = size.toNat + 1 := by
    have hspan : size.toNat + 1 < UInt64.size := by omega
    rw [UInt64.toNat_add]
    exact Nat.mod_eq_of_lt hspan
  have h2 : (line.toUInt64 + size).toNat = line + size.toNat := by
    rw [toNat_line_add (by omega), Nat.mod_eq_of_lt hsize]
  rw [of?, h1, h2, if_pos (by omega)]

end Window

/-- A place in a source, by its line and its column. -/
structure Location where
  line : Nat
  column : Nat
  /-- Lines around the location, with their numbers. -/
  context : List (Nat × String)

namespace Location

/-- The characters before a byte position; past the end, and inside a character, the whole text. -/
def before (source : List Char) (offset : Nat) : List Char :=
  match cut? [] (min offset (size source)) source with
  | some (front, _) => front
  | none => source

/-- The number of the line that a byte position is in. -/
def lineAt (source : List Char) (offset : Nat) : Nat := (before source offset).count lineFeed + 1

/-- The number of the character at a byte position in its line. -/
def columnAt (source : List Char) (offset : Nat) : Nat :=
  (lastLine (before source offset)).length + 1

/-- The lines of a window with their numbers. -/
def numbered (w : Window) (ls : List (List Char)) : List (Nat × String) :=
  (((ls.take w.stop).drop w.start).zipIdx (w.start + 1)).map fun (l, n) => (n, String.ofList l)

/-- The lines around `line`, none of them where the text has no such line. -/
def contextAround? (source : List Char) (line : Nat) (size : UInt64) :
    Option (List (Nat × String)) :=
  let ls := lines source
  if line = 0 ∨ ls.length < line then some []
  else (Window.of? ls.length line size).map (numbered · ls)

/-- The place at a byte position, with the given number of lines around it. -/
def at? (source : String) (offset : Nat) (size : UInt64) : Option Location :=
  let s := source.toList
  let line := lineAt s offset
  (contextAround? s line size).map fun context => ⟨line, columnAt s offset, context⟩

/-- How many lines are shown on either side of a fault. -/
def faultContext : UInt64 := 2

/-- The location of a fault in a template. -/
def ofFault (source : String) (offset : Nat) : Location :=
  let s := source.toList
  let line := lineAt s offset
  ⟨line, columnAt s offset, (contextAround? s line faultContext).getD []⟩

end Location

end Stencil
