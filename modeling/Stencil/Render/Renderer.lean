import Stencil.Render.Expansion
import Stencil.Template.Fault
import Stencil.Template.Outline

/-!
# Rendering

A template is rendered in four passes over its text: placeholders are filled, loops and then
conditionals are expanded, and what is left of the placeholders is cleared away. A renderer adds a
size limit, and the choice to leave templates as they are.
-/

namespace Stencil

/-- The text of a template rendered in a context. -/
def render (missing : MissingBlocks) (template : String) (context : Context) : String :=
  let data := context.merged
  let filled := Placeholder.fillAll template.toList context
  .ofList (Placeholder.clear (Expansion.conditionals data (Expansion.loops data missing filled)))

/-- How templates are rendered. -/
structure Renderer where
  enabled : Bool
  /-- The greatest size of a template in bytes, where there is a limit. -/
  limit : Option Nat
  missing : MissingBlocks

namespace Renderer

/-- The usual limit, one mebibyte. -/
def defaultLimit : Nat := 1024 * 1024

/-- The usual renderer. -/
def default : Renderer := ⟨true, some defaultLimit, .preserve⟩

/-- Refuses a template that is larger than the limit. -/
def checkSize (r : Renderer) (template : String) : Except TemplateFault Unit :=
  match r.limit with
  | none => .ok ()
  | some limit =>
    let size := template.utf8ByteSize
    if limit < size then .error (.tooLarge size limit) else .ok ()

/-- Renders a template, or leaves it as it is where rendering is switched off. -/
def run (r : Renderer) (template : String) (context : Context) : Except TemplateFault String :=
  if r.enabled then do
    r.checkSize template
    return render r.missing template context
  else return template

/-- The outline of a template, whether or not rendering is switched on. -/
def outline (r : Renderer) (template : String) : Except TemplateFault Outline := do
  r.checkSize template
  let nodes ← Node.ofSource template
  return .ofNodes nodes

end Renderer

end Stencil
