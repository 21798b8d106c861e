import Stencil.Data.Yaml.BlockScalar
import Stencil.Data.Yaml.FlowScalar
import Stencil.Data.Yaml.Tag

/-!
# Tokens of a YAML text

The marks, scalars, tags and anchors of a text in order. Indentation is made explicit: where a line is
indented further than before a block collection starts, and where it is indented less the collections
that it leaves end. That something was the key of a mapping shows only at the colon behind it, so that
a key mark may be put in front of tokens that were already read.
-/

namespace Stencil.Yaml

/-- The tokens of a document. -/
inductive Token where
  | directive (d : Directive)
  | documentStart
  | documentEnd
  | sequenceStart
  | mappingStart
  | blockEnd
  | flowSequenceStart
  | flowSequenceEnd
  | flowMappingStart
  | flowMappingEnd
  | item
  | comma
  | key
  | value
  | alias (name : String)
  | anchor (name : String)
  | tag (t : Tag)
  | scalar (text : String) (plain : Bool)
  deriving DecidableEq

/-- Something that may turn out to be a key of one line. -/
structure PendingKey where
  /-- Whether nothing else could stand at its place. -/
  required : Bool
  /-- How many tokens are before it. -/
  position : Nat
  mark : Mark

namespace PendingKey

/-- How far from the start of a key its colon may be. -/
def maxLength : Nat := 1024

/-- Whether the place is too far from the start of the key for its colon. -/
def isPast (k : PendingKey) (m : Mark) : Bool :=
  decide (k.mark.line < m.line ∨ k.mark.index + maxLength < m.index)

end PendingKey

/-- A reader of tokens, between two of them. -/
structure Scanner where
  cursor : Cursor
  /-- The tokens read so far, in reverse. -/
  tokens : List Token
  /-- The columns of the open block collections, from the innermost out. -/
  indents : List Nat
  /-- What may be a key in the innermost open flow collection, or outside of all. -/
  pending : Option PendingKey
  /-- The same for the collections around, one for each open flow collection. -/
  outer : List (Option PendingKey)
  /-- Whether a key of one line may start here. -/
  keyAllowed : Bool

namespace Scanner

/-- The scanner before a whole text. -/
def ofText (s : List Char) : Scanner := ⟨.ofText s, [], [], none, [], true⟩

/-- Whether the scanner is inside brackets. -/
def inFlow (s : Scanner) : Bool := !s.outer.isEmpty

/-- The column of the scanner. -/
def column (s : Scanner) : Nat := s.cursor.mark.column

/-- The least column of what belongs to the innermost block collection. -/
def contentColumn (s : Scanner) : Nat := (s.indents.head?.map (· + 1)).getD 0

/-- One more token. -/
def push (s : Scanner) (t : Token) : Scanner := { s with tokens := t :: s.tokens }

/-- The token put in behind the first `position` tokens. -/
def insert (s : Scanner) (position : Nat) (t : Token) : Scanner :=
  let later := s.tokens.length - position
  { s with tokens := s.tokens.take later ++ t :: s.tokens.drop later }

/-- Gives up what can no longer be a key; it must not be required. -/
def settle? (m : Mark) : Option PendingKey → Option (Option PendingKey)
  | none => some none
  | some k => if k.isPast m then if k.required then none else some none else some (some k)

/-- The scanner after giving up the keys that are too far back. -/
def settled? (s : Scanner) : Option Scanner := do
  let pending ← settle? s.cursor.mark s.pending
  let outer ← s.outer.mapM (settle? s.cursor.mark)
  return { s with pending, outer }

/-- Ends the block collections that are indented beyond `column`; all of them for none. -/
def unindent (s : Scanner) (column : Option Nat) : Scanner :=
  if s.inFlow then s
  else
    let ended := s.indents.takeWhile fun n => column.all (· < n)
    { s with
      tokens := List.replicate ended.length .blockEnd ++ s.tokens
      indents := s.indents.drop ended.length }

/-- Starts a block collection at `column` where that is further right than the open ones, with its
token behind the first `position` tokens. -/
def indent (s : Scanner) (column position : Nat) (t : Token) : Scanner :=
  if s.inFlow ∨ !s.indents.head?.all (· < column) then s
  else { s.insert position t with indents := column :: s.indents }

/-- Opens a collection at the column of the scanner. -/
def indentHere (s : Scanner) (t : Token) : Scanner := s.indent s.column s.tokens.length t

/-- Gives up the key that may be pending; it must not be required. -/
def dropKey? (s : Scanner) : Option Scanner :=
  if s.pending.any PendingKey.required then none else some { s with pending := none }

/-- Notes that a key may start here, if one is allowed. -/
def noteKey? (s : Scanner) : Option Scanner :=
  if s.keyAllowed then do
    let s ← s.dropKey?
    let required := !s.inFlow && s.indents.head? == some s.column
    return { s with pending := some ⟨required, s.tokens.length, s.cursor.mark⟩ }
  else some s

/-- Says whether a key may stand next. -/
def allowKey (s : Scanner) (allowed : Bool) : Scanner := { s with keyAllowed := allowed }

/-- The scanner behind a mark of `n` characters. -/
def mark (s : Scanner) (n : Nat) (t : Token) : Scanner := { s.push t with cursor := s.cursor.skip n }

/-- The scanner behind a token read up to a cursor. -/
def took (s : Scanner) (t : Token) (c : Cursor) : Scanner := { s.push t with cursor := c }

/-- Reads a directive, which stands outside all collections. -/
def directive? (s : Scanner) : Option Scanner := do
  let s ← (s.unindent none).dropKey?
  let (d, rest) ← Directive.read? (s.cursor.rest.drop 1)
  let c ← (s.cursor.upTo rest).endLine?
  return (s.allowKey false).took (.directive d) c

/-- Reads the mark that begins or ends a document. -/
def documentMark? (s : Scanner) (t : Token) : Option Scanner := do
  let s ← (s.unindent none).dropKey?
  return (s.allowKey false).mark 3 t

/-- Reads an opening bracket. -/
def openFlow? (s : Scanner) (t : Token) : Option Scanner := do
  let s ← s.noteKey?
  return { (s.allowKey true).mark 1 t with pending := none, outer := s.pending :: s.outer }

/-- Reads a closing bracket. -/
def closeFlow? (s : Scanner) (t : Token) : Option Scanner := do
  let s ← s.dropKey?
  let s := match s.outer with
    | [] => s
    | pending :: outer => { s with pending, outer }
  return (s.allowKey false).mark 1 t

/-- Reads a comma between brackets. -/
def comma? (s : Scanner) : Option Scanner := do
  let s ← s.dropKey?
  return (s.allowKey true).mark 1 .comma

/-- Reads the mark of an item. -/
def item? (s : Scanner) : Option Scanner := do
  let s ← if s.inFlow then some s
    else if s.keyAllowed then some (s.indentHere .sequenceStart)
    else none
  let s ← s.dropKey?
  return (s.allowKey true).mark 1 .item

/-- The mark of a key that may have any form. -/
def key? (s : Scanner) : Option Scanner := do
  let s ← if s.inFlow then some s
    else if s.keyAllowed then some (s.indentHere .mappingStart)
    else none
  let s ← s.dropKey?
  return (s.allowKey !s.inFlow).mark 1 .key

/-- The colon before a value. If what may be a key is pending it was one. -/
def value? (s : Scanner) : Option Scanner :=
  match s.pending with
  | some k =>
    let s := (s.insert k.position .key).indent k.mark.column k.position .mappingStart
    some (({ s with pending := none }.allowKey false).mark 1 .value)
  | none => do
    let s ← if s.inFlow then some s
      else if s.keyAllowed then some (s.indentHere .mappingStart)
      else none
    return (s.allowKey !s.inFlow).mark 1 .value

/-- Reads an anchor or an alias. -/
def anchor? (s : Scanner) (token : String → Token) : Option Scanner := do
  let s ← s.noteKey?
  let (name, rest) ← Anchor.name? (s.cursor.rest.drop 1)
  return (s.allowKey false).took (token name) (s.cursor.upTo rest)

/-- Reads a tag. -/
def tag? (s : Scanner) : Option Scanner := do
  let s ← s.noteKey?
  let (t, rest) ← Tag.read? s.cursor.rest
  if atSpace rest ∨ (s.inFlow ∧ rest.head? = some ',') then
    return (s.allowKey false).took (.tag t) (s.cursor.upTo rest)
  else none

/-- Reads a block scalar. -/
def blockScalar? (s : Scanner) (literal : Bool) : Option Scanner := do
  let s ← s.dropKey?
  let (text, c) ← block? literal s.contentColumn (s.indents.head?.getD 0) s.cursor
  return (s.allowKey true).took (.scalar text false) c

/-- Reads a scalar between quotes. -/
def quotedScalar? (s : Scanner) (quote : Char) : Option Scanner := do
  let s ← s.noteKey?
  let (text, c) ← quoted? quote s.cursor
  return (s.allowKey false).took (.scalar text false) c

/-- Reads a scalar without quotes, behind which a key may stand if it runs over several lines. -/
def plainScalar? (s : Scanner) : Option Scanner := do
  let s ← s.noteKey?
  let p ← plain? s.inFlow s.contentColumn s.cursor
  return (s.allowKey p.broken).took (.scalar p.text true) p.after

/-- Characters with a meaning of their own at the front of a token. -/
def indicators : List Char := "-?:,[]\x7b\x7d#&*!|>'\"%@`".toList

/-- Whether a plain scalar may start with `c` before `rest`. -/
def startsPlain (inFlow : Bool) (c : Char) (rest : List Char) : Bool :=
  !(isSpace c || indicators.contains c) ||
    (c == '-' && !rest.head?.any isBlank) ||
    (!inFlow && (c == '?' || c == ':') && !atSpace rest)

/-- The scanner behind the token that starts with `c` before `rest`. -/
def token? (s : Scanner) (c : Char) (rest : List Char) : Option Scanner :=
  if s.column = 0 ∧ c = '%' then s.directive?
  else if s.cursor.atMark '-' then s.documentMark? .documentStart
  else if s.cursor.atMark '.' then s.documentMark? .documentEnd
  else if c = '[' then s.openFlow? .flowSequenceStart
  else if c = '{' then s.openFlow? .flowMappingStart
  else if c = ']' then s.closeFlow? .flowSequenceEnd
  else if c = '}' then s.closeFlow? .flowMappingEnd
  else if c = ',' then s.comma?
  else if c = '-' ∧ atSpace rest then s.item?
  else if c = '?' ∧ (s.inFlow ∨ atSpace rest) then s.key?
  else if c = ':' ∧ (s.inFlow ∨ atSpace rest) then s.value?
  else if c = '*' then s.anchor? .alias
  else if c = '&' then s.anchor? .anchor
  else if c = '!' then s.tag?
  else if c = '|' ∧ !s.inFlow then s.blockScalar? true
  else if c = '>' ∧ !s.inFlow then s.blockScalar? false
  else if c = '\'' ∨ c = '"' then s.quotedScalar? c
  else if startsPlain s.inFlow c rest then s.plainScalar?
  else none

/-- The scanner at the end of the text. The key that may be pending must not be required. -/
def finish? (s : Scanner) : Option (List Token) := do
  let s ← (s.unindent none).dropKey?
  return s.tokens.reverse

/-- The tokens of the whole text. Each takes a character, so that the length of the text is enough
`fuel`. -/
def run? (s : Scanner) : Nat → Option (List Token)
  | 0 => none
  | fuel + 1 => do
    let (keyAllowed, cursor) := skipFiller s.inFlow s.keyAllowed false s.cursor.mark s.cursor.rest
    let s ← { s with keyAllowed, cursor }.settled?
    let s := s.unindent (some s.column)
    match s.cursor.rest with
    | [] => s.finish?
    | c :: rest => do
      let s ← s.token? c rest
      s.run? fuel

end Scanner

/-- The tokens of a text. -/
def tokens? (s : List Char) : Option (List Token) := (Scanner.ofText s).run? (s.length + 1)

end Stencil.Yaml
