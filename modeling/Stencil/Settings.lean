import Stencil.Data.Toml.Reader
import Stencil.Render.Renderer

/-!
# Settings

The settings of a renderer, kept in a TOML file. Each of them may be left out there, and what is not a
setting is ignored.

* `renderer_limit_eq_none_iff`: a size of zero switches the limit off.
-/

namespace Stencil

/-- The settings of the program. -/
structure Settings where
  /-- Whether templates are rendered at all. -/
  enabled : Bool
  /-- The greatest size of a template in bytes; zero for no limit. -/
  maxSize : Nat
  missing : MissingBlocks
  deriving DecidableEq

namespace Settings

/-- The settings of a program without a file of settings. -/
def default : Settings := ⟨true, Renderer.defaultLimit, .preserve⟩

/-- A size in a data tree: a whole number of 64 bits without a sign. -/
def size? : Datum → Option Nat
  | .integer n => if Word.holds 64 n then some n.toNat else none
  | _ => none

/-- What may be said of a choice that has nothing to be said about: nothing. -/
def isBare : Datum → Bool
  | .sequence [] => true
  | .mapping [] => true
  | _ => false

/-- A choice in a data tree: its name, or a mapping with its name as the only key. -/
def missing? : Datum → Option MissingBlocks
  | .string s => MissingBlocks.ofName? s
  | .mapping [(name, d)] => if isBare d then MissingBlocks.ofName? name else none
  | _ => none

/-- The setting under a key, or the default where it is left out. -/
def setting? {α : Type} (d : Datum) (key : String) (read : Datum → Option α) (other : α) : Option α :=
  match d.field? key with
  | none => some other
  | some e => read e

/-- The settings that a datum holds, with the default ones in place of those that it lacks. -/
def ofDatum? (d : Datum) : Option Settings := do
  let enabled ← setting? d "enabled" Datum.bool? default.enabled
  let maxSize ← setting? d "max_template_size" size? default.maxSize
  let missing ← setting? d "missing_blocks" missing? default.missing
  return ⟨enabled, maxSize, missing⟩

/-- The settings that a text holds. -/
def ofText? (text : String) : Option Settings := (Toml.read? text).bind ofDatum?

/-- The text of a file with the settings. -/
def text (s : Settings) : String :=
  "enabled = " ++ (if s.enabled then "true" else "false") ++ "\n" ++
  "max_template_size = " ++ s.maxSize.repr ++ "\n" ++
  "missing_blocks = \"" ++ s.missing.name ++ "\"\n"

/-- The text of a file with the default settings and what they mean. -/
def exampleText : String :=
  "# uxr rendering configuration\n\n" ++
  "# false: templates are returned unchanged\n" ++
  "enabled = true\n\n" ++
  "# Largest template accepted, in bytes; 0 disables the limit\n" ++
  "max_template_size = " ++ Renderer.defaultLimit.repr ++ "\n\n" ++
  "# Loop blocks whose key is absent from the data:\n" ++
  "#   \"preserve\" keeps the block text (placeholders are still stripped)\n" ++
  "#   \"remove\" deletes the whole block\n" ++
  "missing_blocks = \"preserve\"\n"

/-- The renderer that the settings ask for. -/
def renderer (s : Settings) : Renderer :=
  ⟨s.enabled, if s.maxSize = 0 then none else some s.maxSize, s.missing⟩

theorem renderer_limit_eq_none_iff (s : Settings) : s.renderer.limit = none ↔ s.maxSize = 0 := by
  rw [renderer]
  split <;> simp_all

end Settings

end Stencil
