import Stencil.Data.Yaml.Gap
import Stencil.Text.Hexadecimal

/-!
# Quoted and plain scalars

Scalars whose lines are folded: those between quotes, of which the double ones allow escapes, and plain
ones, which end where something else could begin.
-/

namespace Stencil.Yaml

open Text

/-- The character that an escape stands for, behind its backslash. -/
def escape? : List Char → Option (Char × List Char)
  | '0' :: s => some ('\x00', s)
  | 'a' :: s => some ('\x07', s)
  | 'b' :: s => some ('\x08', s)
  | 't' :: s => some ('\t', s)
  | '\t' :: s => some ('\t', s)
  | 'n' :: s => some ('\n', s)
  | 'v' :: s => some ('\x0b', s)
  | 'f' :: s => some ('\x0c', s)
  | 'r' :: s => some ('\x0d', s)
  | 'e' :: s => some ('\x1b', s)
  | ' ' :: s => some (' ', s)
  | '"' :: s => some ('"', s)
  | '/' :: s => some ('/', s)
  | '\\' :: s => some ('\\', s)
  | 'N' :: s => some ('\u0085', s)
  | '_' :: s => some ('\u00a0', s)
  | 'L' :: s => some ('\u2028', s)
  | 'P' :: s => some ('\u2029', s)
  | 'x' :: s => hexChar? 2 s
  | 'u' :: s => hexChar? 4 s
  | 'U' :: s => hexChar? 8 s
  | _ => none

/-- The rest of a scalar between quotes. `seen` holds, in reverse, what was read of it. Each step takes a
character, so that the length of the text is enough `fuel`. -/
def quotedFrom? (quote : Char) (seen : List Char) : Nat → Cursor → Option (String × Cursor)
  | 0, _ => none
  | fuel + 1, c =>
    if c.atDocumentMark then none
    else
      let across (g : Gap) (c : Cursor) : Option (String × Cursor) := do
        let (g, c) ← g.read? 0 c.mark c.rest
        quotedFrom? quote (g.text.reverse ++ seen) fuel c
      match c.rest with
      | [] => none
      | d :: s =>
        if isSpace d then across .empty c
        else if d = quote then
          if quote = '\'' ∧ s.head? = some '\'' then quotedFrom? quote ('\'' :: seen) fuel (c.skip 2)
          else some (.ofList seen.reverse, c.skip 1)
        else if d = '\\' ∧ quote = '"' then
          match (c.skip 1).afterBreak? with
          | some (_, c) => across .escaped c
          | none => do
            let (e, rest) ← escape? s
            quotedFrom? quote (e :: seen) fuel (c.upTo rest)
        else quotedFrom? quote (d :: seen) fuel (c.skip 1)

/-- The scalar from its opening quote on. -/
def quoted? (quote : Char) (c : Cursor) : Option (String × Cursor) :=
  quotedFrom? quote [] (c.rest.length + 1) (c.skip 1)

/-- Whether a character has a meaning of its own inside brackets. -/
def isFlowIndicator (c : Char) : Bool := [',', '[', ']', '{', '}'].contains c

/-- The word at the front of a text, up to a blank or something that ends a plain scalar. In a flow
collection a colon may not stand before an indicator. -/
def plainWord? (inFlow : Bool) : List Char → Option (List Char × List Char)
  | [] => some ([], [])
  | c :: s =>
    if isSpace c then some ([], c :: s)
    else if inFlow ∧ c = ':' ∧ s.head?.any (fun d => isFlowIndicator d || d == '?') then none
    else if (c = ':' ∧ atSpace s) ∨ (inFlow ∧ isFlowIndicator c) then some ([], c :: s)
    else (plainWord? inFlow s).map fun (word, rest) => (c :: word, rest)

/-- A plain scalar with what is behind it. -/
structure PlainScalar where
  text : String
  after : Cursor
  /-- Whether a line break stands behind the scalar. -/
  broken : Bool

/-- The rest of a plain scalar. `seen` holds, in reverse, what was read of it, and `g` the gap behind
that. Outside flow collections its lines start at column `indent` or further right. -/
def plainFrom? (inFlow : Bool) (indent : Nat) (seen : List Char) (g : Gap) :
    Nat → Cursor → Option PlainScalar
  | 0, _ => none
  | fuel + 1, c =>
    let ended := some ⟨.ofList seen.reverse, c, g.first.isSome⟩
    if c.atDocumentMark ∨ c.rest.head? = some '#' then ended
    else do
      let (word, rest) ← plainWord? inFlow c.rest
      let c := c.upTo rest
      if word.isEmpty then ended
      else
        let seen := word.reverse ++ g.text.reverse ++ seen
        let (g, d) ← Gap.empty.read? indent c.mark c.rest
        if rest.isEmpty ∨ !atSpace rest ∨ (!inFlow ∧ d.mark.column < indent) then
          some ⟨.ofList seen.reverse, d, g.first.isSome⟩
        else plainFrom? inFlow indent seen g fuel d

/-- A scalar without quotes. -/
def plain? (inFlow : Bool) (indent : Nat) (c : Cursor) : Option PlainScalar :=
  plainFrom? inFlow indent [] .empty (c.rest.length + 1) c

end Stencil.Yaml
