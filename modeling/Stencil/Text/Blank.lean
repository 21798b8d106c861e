/-!
# Blank characters

The characters with the White_Space property of the Unicode Character Database: what separates the
words of a tag and what trimming removes.

* `trimEnd_append`: trimming drops blanks at the end and nothing else.
-/

namespace Stencil.Text

/-- White_Space, as listed in `PropList.txt`. -/
def isBlank (c : Char) : Bool :=
  let n := c.toNat
  (0x09 ≤ n && n ≤ 0x0D) || n == 0x20 || n == 0x85 || n == 0xA0 || n == 0x1680 ||
    (0x2000 ≤ n && n ≤ 0x200A) || n == 0x2028 || n == 0x2029 || n == 0x202F || n == 0x205F ||
    n == 0x3000

/-- What is left behind leading blanks. -/
def skipBlanks (s : List Char) : List Char := s.dropWhile isBlank

/-- What is left before trailing blanks. -/
def trimEnd (s : List Char) : List Char := (s.reverse.dropWhile isBlank).reverse

/-- What is left between leading and trailing blanks. -/
def trim (s : List Char) : List Char := trimEnd (skipBlanks s)

theorem trimEnd_append (s : List Char) : ∃ t, s = trimEnd s ++ t ∧ t.all isBlank := by
  refine ⟨(s.reverse.takeWhile isBlank).reverse, ?_, ?_⟩
  · rw [trimEnd, ← List.reverse_append, List.takeWhile_append_dropWhile, List.reverse_reverse]
  · rw [List.all_reverse, List.all_takeWhile]

end Stencil.Text
