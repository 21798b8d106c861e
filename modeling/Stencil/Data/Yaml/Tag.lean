import Stencil.Data.Fields
import Stencil.Data.Yaml.Cursor
import Stencil.Text.Hexadecimal

/-!
# Tags and anchors

A tag names the type of a node. It is written in full between angle brackets, or as a handle and a
suffix, where a directive may say what the handle stands for; octets behind percent signs are read as
UTF-8. An anchor names the node itself.
-/

namespace Stencil.Yaml

open Text

/-- Characters of names: of anchors, handles and directives. -/
def isNameChar (c : Char) : Bool := c.isAlphanum || c == '_' || c == '-'

/-- A tag as it is written. -/
structure Tag where
  handle : String
  suffix : String
  deriving DecidableEq

/-- What the handles stand for. -/
abbrev Handles := Fields String

namespace Tag

/-- Characters of a tag besides those of names. -/
def suffixChars : List Char := ";/?:@&=+$.%!~*'()".toList

/-- Whether a character may stand behind the handle of a tag. -/
def isSuffixChar (c : Char) : Bool := isNameChar c || suffixChars.contains c

/-- Characters of a tag that is written in full. -/
def isFullChar (c : Char) : Bool := isSuffixChar c || c == ',' || c == '[' || c == ']'

/-- An octet behind a percent sign. -/
def octet? : List Char → Option (Nat × List Char)
  | '%' :: s => hexPrefix? 2 s
  | _ => none

/-- How many octets follow one that starts a character, and the bits that it holds. -/
def leading? (octet : Nat) : Option (Nat × Nat) :=
  if octet < 0x80 then some (0, octet)
  else if octet < 0xC0 then none
  else if octet < 0xE0 then some (1, octet - 0xC0)
  else if octet < 0xF0 then some (2, octet - 0xE0)
  else if octet < 0xF8 then some (3, octet - 0xF0)
  else none

/-- The least code point with that many octets behind the first. -/
def leastWith (following : Nat) : Nat := [0, 0x80, 0x800, 0x10000].getD following 0

/-- Octets that go on with a character, put behind the bits already read. -/
def following? (bits : Nat) : Nat → List Char → Option (Nat × List Char)
  | 0, s => some (bits, s)
  | n + 1, s => do
    let (octet, s) ← octet? s
    if 0x80 ≤ octet ∧ octet < 0xC0 then following? (bits * 64 + (octet - 0x80)) n s else none

/-- The character whose octets stand at the front of a text. Octets that are no character are read as
a replacement. -/
def escaped? (s : List Char) : Option (Char × List Char) := do
  let (octet, s) ← octet? s
  let (n, bits) ← leading? octet
  let (point, s) ← following? bits n s
  return (if point < leastWith n then '\ufffd' else (charOf? point).getD '\ufffd', s)

/-- The characters with `p` at the front of a text, escapes read. Each takes a character of the text,
whose length is enough `fuel`. -/
def run? (p : Char → Bool) : Nat → List Char → Option (List Char × List Char)
  | 0, _ => none
  | _ + 1, [] => some ([], [])
  | fuel + 1, c :: s =>
    if !p c then some ([], c :: s)
    else do
      let (d, s) ← if c = '%' then escaped? (c :: s) else some (c, s)
      let (ds, s) ← run? p fuel s
      return (d :: ds, s)

/-- A run of at least one character. -/
def run1? (p : Char → Bool) (s : List Char) : Option (List Char × List Char) := do
  let (ds, rest) ← run? p (s.length + 1) s
  if ds.isEmpty then none else some (ds, rest)

/-- An exclamation mark and a name, with another mark behind it or not. -/
def handle? : List Char → Option (List Char × List Char)
  | '!' :: s =>
    let name := s.takeWhile isNameChar
    match s.dropWhile isNameChar with
    | '!' :: rest => some ('!' :: name ++ ['!'], rest)
    | rest => some ('!' :: name, rest)
  | _ => none

/-- Whether what was read as a handle is one; otherwise it is the front of a tag. -/
def isHandle (cs : List Char) : Bool := decide (1 < cs.length) && cs.getLast? == some '!'

/-- The tag at the front of a text, from its exclamation mark on. -/
def read? : List Char → Option (Tag × List Char)
  | '!' :: '<' :: s => do
    let (suffix, s) ← run1? isFullChar s
    match s with
    | '>' :: s => return (⟨"", .ofList suffix⟩, s)
    | _ => none
  | s => do
    let (handle, rest) ← handle? s
    if isHandle handle then
      let (suffix, rest) ← run1? isSuffixChar rest
      return (⟨.ofList handle, .ofList suffix⟩, rest)
    else
      let (more, rest) ← run? isSuffixChar (rest.length + 1) rest
      let suffix := handle.tail ++ more
      return (if suffix.isEmpty then ⟨"", "!"⟩ else ⟨"!", .ofList suffix⟩, rest)

/-- The handles that need no directive. -/
def defaultHandles : Handles := [("!", "!"), ("!!", "tag:yaml.org,2002:")]

/-- The tag in full, if its handle stands for something. -/
def resolve? (handles : Handles) (t : Tag) : Option String :=
  if t.handle = "" then some t.suffix
  else ((handles.get? t.handle).or (defaultHandles.get? t.handle)).map (· ++ t.suffix)

end Tag

namespace Anchor

/-- What may stand behind the name of an anchor. -/
def isEnd (s : List Char) : Bool :=
  atSpace s || s.head?.any fun c => "?:,]\x7d%@`".toList.contains c

/-- The name behind the sign of an anchor or an alias. -/
def name? (s : List Char) : Option (String × List Char) :=
  let name := s.takeWhile isNameChar
  let rest := s.dropWhile isNameChar
  if name.isEmpty ∨ !isEnd rest then none else some (.ofList name, rest)

end Anchor

/-- What a line with a percent sign says. -/
inductive Directive where
  | version (major minor : Nat)
  | handle (handle full : String)
  deriving DecidableEq

namespace Directive

/-- The number of digits that a version may have. -/
def maxDigits : Nat := 9

/-- A number of a version. -/
def number? (s : List Char) : Option (Nat × List Char) :=
  let digits := s.takeWhile Char.isDigit
  if digits.isEmpty ∨ maxDigits < digits.length then none
  else some (digits.foldl (fun n c => 10 * n + (c.toNat - '0'.toNat)) 0, s.dropWhile Char.isDigit)

/-- The directive that says which version a document is for. -/
def version? (s : List Char) : Option (Directive × List Char) := do
  let (major, s) ← number? s
  match s with
  | '.' :: s => do
    let (minor, s) ← number? s
    return (version major minor, s)
  | _ => none

/-- The directive that says what a handle stands for. -/
def handle? (s : List Char) : Option (Directive × List Char) := do
  let (name, s) ← Tag.handle? s
  if !(Tag.isHandle name || name == ['!']) ∨ !s.head?.any isBlank then none
  else do
    let (full, s) ← Tag.run1? Tag.isFullChar (s.dropWhile isBlank)
    if atSpace s then some (handle (.ofList name) (.ofList full), s) else none

/-- The directive behind its percent sign. -/
def read? (s : List Char) : Option (Directive × List Char) :=
  let name := s.takeWhile isNameChar
  let rest := s.dropWhile isNameChar
  if !atSpace rest then none
  else if name = "YAML".toList then version? (rest.dropWhile isBlank)
  else if name = "TAG".toList then handle? (rest.dropWhile isBlank)
  else none

end Directive

end Stencil.Yaml
