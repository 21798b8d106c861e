import Stencil.Template.Tag

/-!
# Blocks in raw text

A loop reaches from its opening tag to the first closing tag behind it, and a conditional likewise,
whatever stands between the two. Blocks of one kind are therefore not nested: an inner opening tag is
part of the outer body, and the outer closing tag is left over.
-/

namespace Stencil

open Text

/-- A loop as the rendering passes see it, with its body as text. -/
structure LoopBlock where
  key : String
  body : List Char

/-- A conditional as the rendering passes see it, with its body as text. -/
structure ConditionalBlock where
  condition : Condition
  body : List Char

namespace LoopBlock

/-- Reads a loop up to the first closing tag behind its opening one. -/
def recogniser : Recogniser LoopBlock :=
  Tag.loopKey.followedBy fun key => do
    let body ← Reader.upTo Tag.eachCloseText
    return ⟨key, body⟩

end LoopBlock

namespace ConditionalBlock

/-- Reads a conditional up to the first closing tag behind its opening one. -/
def recogniser : Recogniser ConditionalBlock :=
  Tag.condition.followedBy fun condition => do
    let body ← Reader.upTo Tag.ifCloseText
    return ⟨condition, body⟩

/-- What stands in place of the block when its condition holds: the body up to the first
`otherwise` tag. -/
def whenTrue (b : ConditionalBlock) : List Char :=
  match split? Tag.otherwiseText [] b.body with
  | some (front, _) => front
  | none => b.body

/-- What stands in place of the block when its condition fails: the body behind the first
`otherwise` tag, and nothing without one. -/
def whenFalse (b : ConditionalBlock) : List Char :=
  match split? Tag.otherwiseText [] b.body with
  | some (_, back) => back
  | none => []

end ConditionalBlock

end Stencil
