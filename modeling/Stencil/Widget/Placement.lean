import Stencil.Data.Fields
import Stencil.Number.Arithmetic
import Stencil.Number.Shortest

/-!
# Placement

A floating element is placed right below the element it belongs to, and is at least as wide.
-/

namespace Stencil

/-- The box around an element. -/
structure Box where
  top : Number
  left : Number
  width : Number
  height : Number
  deriving DecidableEq

/-- Where a widget is placed. -/
structure Placement where
  top : Number
  left : Number
  minWidth : Number
  deriving DecidableEq

namespace Placement

/-- The place below a box, with its width. -/
def below (box : Box) : Placement := ⟨box.top.add box.height, box.left, box.width⟩

/-- A length as it is written in a style. -/
def pixels (x : Number) : String := x.text ++ "px"

/-- The style properties of an element with those of the placement put in. -/
def apply (p : Placement) (styles : Fields String) : Fields String :=
  styles.insert "top" (pixels p.top) |>.insert "left" (pixels p.left)
    |>.insert "min-width" (pixels p.minWidth)

end Placement

end Stencil
