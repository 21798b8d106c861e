import Stencil.Data.Yaml.Token

/-!
# YAML trees

A document is a tree of scalars, sequences and mappings, each perhaps with an anchor and a tag, and of
aliases for anchored nodes. A node that is left out is an empty scalar.
-/

namespace Stencil.Yaml

/-- The anchor and the tag of a node. -/
structure Properties (Label : Type) where
  anchor : Option Label
  tag : Option String

/-- A tree whose anchors and aliases are told apart by labels. -/
inductive Node (Label : Type) where
  | alias (label : Label)
  | scalar (properties : Properties Label) (text : String) (plain : Bool)
  | sequence (properties : Properties Label) (items : List (Node Label))
  | mapping (properties : Properties Label) (entries : List (Node Label × Node Label))

namespace Properties

/-- Neither an anchor nor a tag. -/
def none {Label : Type} : Properties Label := ⟨Option.none, Option.none⟩

/-- Whether there is neither an anchor nor a tag. -/
def isNone {Label : Type} (p : Properties Label) : Bool := p.anchor.isNone && p.tag.isNone

/-- A tag at the beginning of the tokens, if there is one. -/
def tag? (handles : Handles) : List Token → Option (Option String × List Token)
  | .tag t :: ts => (t.resolve? handles).map fun tag => (some tag, ts)
  | ts => some (Option.none, ts)

/-- An anchor at the beginning of the tokens, if there is one. -/
def leadingAnchor : List Token → Option String × List Token
  | .anchor name :: ts => (some name, ts)
  | ts => (Option.none, ts)

/-- The anchor and the tag in front of a node, in either order. -/
def read? (handles : Handles) (ts : List Token) : Option (Properties String × List Token) :=
  match leadingAnchor ts with
  | (some name, ts) => do
    let (tag, ts) ← tag? handles ts
    return (⟨some name, tag⟩, ts)
  | (Option.none, ts) => do
    let (tag, ts) ← tag? handles ts
    let (name, ts) := if tag.isSome then leadingAnchor ts else (Option.none, ts)
    return (⟨name, tag⟩, ts)

/-- The properties of a scalar that is written out, for which the tag `!` says nothing. -/
def ofScalar {Label : Type} (p : Properties Label) : Properties Label :=
  if p.tag = some "!" then { p with tag := Option.none } else p

end Properties

namespace Node

/-- A node that is left out. -/
def empty (p : Properties String) : Node String := .scalar p "" true

/-- Where a node stands. -/
inductive Place where
  /-- In a flow collection, where no block collection may stand. -/
  | flow
  | block
  /-- In a block mapping, where a sequence need not be indented. -/
  | entry
  deriving DecidableEq

/-- Whether the next token is one of those given. -/
def isOneOf (tokens : List Token) (ts : List Token) : Bool := ts.head?.any tokens.contains

mutual

/-- The node at the front of the tokens. Of four calls in a row one takes a token, so that four times
their number is enough `fuel`. -/
def read? (handles : Handles) : Nat → Place → List Token → Option (Node String × List Token)
  | 0, _, _ => none
  | _ + 1, _, .alias name :: ts => some (.alias name, ts)
  | fuel + 1, place, ts => do
    let (p, ts) ← Properties.read? handles ts
    match ts, decide (place = .flow), decide (place = .entry) with
    | .item :: _, _, true => do
      let (items, rest) ← looseItems? handles fuel ts
      return (.sequence p items, rest)
    | .scalar text plain :: ts, _, _ => some (.scalar p.ofScalar text plain, ts)
    | .flowSequenceStart :: ts, _, _ => do
      let (items, ts) ← flowItems? handles fuel true ts
      return (.sequence p items, ts)
    | .flowMappingStart :: ts, _, _ => do
      let (entries, ts) ← flowEntries? handles fuel true ts
      return (.mapping p entries, ts)
    | .sequenceStart :: ts, false, _ => do
      let (items, ts) ← items? handles fuel ts
      return (.sequence p items, ts)
    | .mappingStart :: ts, false, _ => do
      let (entries, ts) ← entries? handles fuel ts
      return (.mapping p entries, ts)
    | ts, _, _ => if p.isNone then none else some (empty p, ts)

/-- A node, or an empty one where the tokens go on with one of `ends`. -/
def readUnless? (handles : Handles) (ends : List Token) :
    Nat → Place → List Token → Option (Node String × List Token)
  | 0, _, _ => none
  | fuel + 1, place, ts =>
    if isOneOf ends ts then some (empty .none, ts) else read? handles fuel place ts

/-- The items of an indented sequence, up to its end. -/
def items? (handles : Handles) : Nat → List Token → Option (List (Node String) × List Token)
  | 0, _ => none
  | fuel + 1, .item :: ts => do
    let (n, ts) ← readUnless? handles [.item, .blockEnd] fuel .block ts
    let (ns, ts) ← items? handles fuel ts
    return (n :: ns, ts)
  | _ + 1, .blockEnd :: ts => some ([], ts)
  | _ + 1, _ => none

/-- The items of a sequence that is not indented, up to another token. -/
def looseItems? (handles : Handles) : Nat → List Token → Option (List (Node String) × List Token)
  | 0, _ => none
  | fuel + 1, .item :: ts => do
    let (n, ts) ← readUnless? handles [.item, .key, .value, .blockEnd] fuel .block ts
    let (ns, ts) ← looseItems? handles fuel ts
    return (n :: ns, ts)
  | _ + 1, ts => some ([], ts)

/-- A value behind its mark; without the mark it is left out. -/
def value? (handles : Handles) (ends : List Token) :
    Nat → Place → List Token → Option (Node String × List Token)
  | 0, _, _ => none
  | fuel + 1, place, .value :: ts => readUnless? handles ends fuel place ts
  | _ + 1, _, ts => some (empty .none, ts)

/-- The entries of a block mapping, up to its end. -/
def entries? (handles : Handles) :
    Nat → List Token → Option (List (Node String × Node String) × List Token)
  | 0, _ => none
  | fuel + 1, .key :: ts => do
    let (k, ts) ← readUnless? handles [.key, .value, .blockEnd] fuel .entry ts
    let (v, ts) ← value? handles [.key, .value, .blockEnd] fuel .entry ts
    let (es, ts) ← entries? handles fuel ts
    return ((k, v) :: es, ts)
  | _ + 1, .blockEnd :: ts => some ([], ts)
  | _ + 1, _ => none

/-- A mapping of one entry in a flow sequence, behind the mark of its key. A key that is left out takes
the token behind it along. -/
def pair? (handles : Handles) : Nat → List Token → Option (Node String × List Token)
  | 0, _ => none
  | fuel + 1, ts => do
    let (k, ts) ← if isOneOf [.value, .comma, .flowSequenceEnd] ts then
        some (empty .none, ts.tail)
      else read? handles fuel .flow ts
    let (v, ts) ← value? handles [.comma, .flowSequenceEnd] fuel .flow ts
    return (.mapping .none [(k, v)], ts)

/-- The items of a flow sequence, up to its end. -/
def flowItems? (handles : Handles) :
    Nat → Bool → List Token → Option (List (Node String) × List Token)
  | 0, _, _ => none
  | _ + 1, _, .flowSequenceEnd :: ts => some ([], ts)
  | fuel + 1, first, ts => do
    let ts ← afterComma? first ts
    match ts with
    | .flowSequenceEnd :: ts => some ([], ts)
    | .key :: ts => do
      let (n, ts) ← pair? handles fuel ts
      let (ns, ts) ← flowItems? handles fuel false ts
      return (n :: ns, ts)
    | ts => do
      let (n, ts) ← read? handles fuel .flow ts
      let (ns, ts) ← flowItems? handles fuel false ts
      return (n :: ns, ts)

/-- The entries of a flow mapping, up to its end. An entry without the mark of a key has no value. -/
def flowEntries? (handles : Handles) :
    Nat → Bool → List Token → Option (List (Node String × Node String) × List Token)
  | 0, _, _ => none
  | _ + 1, _, .flowMappingEnd :: ts => some ([], ts)
  | fuel + 1, first, ts => do
    let ts ← afterComma? first ts
    match ts with
    | .flowMappingEnd :: ts => some ([], ts)
    | .key :: ts => do
      let (k, ts) ← readUnless? handles [.value, .comma, .flowMappingEnd] fuel .flow ts
      let (v, ts) ← value? handles [.comma, .flowMappingEnd] fuel .flow ts
      let (es, ts) ← flowEntries? handles fuel false ts
      return ((k, v) :: es, ts)
    | ts => do
      let (k, ts) ← read? handles fuel .flow ts
      let (es, ts) ← flowEntries? handles fuel false ts
      return ((k, empty .none) :: es, ts)

/-- The tokens behind the comma that separates the items of a flow collection. -/
def afterComma? : Bool → List Token → Option (List Token)
  | true, ts => some ts
  | false, .comma :: ts => some ts
  | false, _ => none

end

/-- What the directives in front of a document say. -/
structure Prologue where
  versioned : Bool
  handles : Handles

/-- The directives in front of a document. There is at most one version, which is 1.1 or 1.2, and a
handle is given once. -/
def prologue? (p : Prologue) : List Token → Option (Prologue × List Token)
  | .directive (.version major minor) :: ts =>
    if p.versioned ∨ major ≠ 1 ∨ (minor ≠ 1 ∧ minor ≠ 2) then none
    else prologue? { p with versioned := true } ts
  | .directive (.handle handle full) :: ts =>
    if p.handles.contains handle then none
    else prologue? { p with handles := p.handles.insert handle full } ts
  | ts => some (p, ts)

/-- Whether a document ends before the tokens. -/
def isDocumentEdge (ts : List Token) : Bool :=
  match ts with
  | [] => true
  | .directive _ :: _ => true
  | .documentStart :: _ => true
  | .documentEnd :: _ => true
  | _ => false

/-- The node of a document, and the tokens behind it. -/
def content? (ts : List Token) : Option (Node String × List Token) := do
  let (p, rest) ← prologue? ⟨false, []⟩ ts
  let fuel := 4 * ts.length + 4
  match rest with
  | .documentStart :: rest =>
    if isDocumentEdge rest then some (empty .none, rest) else read? p.handles fuel .block rest
  | rest => if rest.length < ts.length then none else read? p.handles fuel .block rest

/-- The tree of the only document in the tokens; there may be none. -/
def document? (ts : List Token) : Option (Option (Node String)) :=
  if ts.isEmpty then some none
  else do
    let (n, rest) ← content? ts
    if rest.all (· == .documentEnd) then some (some n) else none

end Node

end Stencil.Yaml
