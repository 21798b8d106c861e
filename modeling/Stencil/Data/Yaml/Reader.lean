import Stencil.Data.Yaml.Graph

/-!
# Reading YAML

A YAML text holds at most one document; without one it is read as nothing. It may not contain control
characters.
-/

namespace Stencil.Yaml

/-- Characters that may stand in a text. -/
def isPrintable (c : Char) : Bool :=
  let n := c.toNat
  c == '\t' || c == '\n' || c == '\x0d' || (0x20 ≤ n && n ≤ 0x7E) || c == '\u0085' ||
    (0xA0 ≤ n && n ≤ 0xFFFD && c != '\ufeff') || 0x10000 ≤ n

/-- A mark at the front of the text that is not part of it. -/
def byteOrderMark : Char := '\ufeff'

/-- The data tree of a YAML text. -/
def read? (text : String) : Option Datum := do
  let s := match text.toList with
    | [] => []
    | c :: s => if c = byteOrderMark then s else c :: s
  if !s.all isPrintable then none
  else
    let tokens ← tokens? s
    match ← Node.document? tokens with
    | none => return .null
    | some n => n.resolve?

end Stencil.Yaml
