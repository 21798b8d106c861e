import Stencil.Data.Yaml.Node
import Stencil.Data.Yaml.Scalar

/-!
# Following aliases

Anchors are numbered as they come up, by how many names are known before; an alias stands for the
number its name has at that point, and a number for the last node that got it. How often aliases are
followed is limited by the size of the document, and how deep the result is nested is limited too, so
that a document that contains itself has no data tree.
-/

namespace Stencil.Yaml

namespace Properties

/-- The properties with the anchor numbered, and the names known behind it. -/
def numbered (names : Fields Nat) (p : Properties String) : Properties Nat × Fields Nat :=
  match p.anchor with
  | Option.none => (⟨Option.none, p.tag⟩, names)
  | some name => (⟨some names.length, p.tag⟩, names.insert name names.length)

end Properties

namespace Node

mutual

/-- The node with its anchors numbered; an alias must be for a name that is known. -/
def numbered? (names : Fields Nat) : Node String → Option (Node Nat × Fields Nat)
  | .alias name => (names.get? name).map fun n => (.alias n, names)
  | .scalar p text plain =>
    let (p, names) := p.numbered names
    some (.scalar p text plain, names)
  | .sequence p items => do
    let (p, names) := p.numbered names
    let (items, names) ← numberedItems? names items
    return (.sequence p items, names)
  | .mapping p entries => do
    let (p, names) := p.numbered names
    let (entries, names) ← numberedEntries? names entries
    return (.mapping p entries, names)

/-- The items of a sequence, with the anchors in them numbered in order. -/
def numberedItems? (names : Fields Nat) : List (Node String) → Option (List (Node Nat) × Fields Nat)
  | [] => some ([], names)
  | n :: ns => do
    let (n, names) ← numbered? names n
    let (ns, names) ← numberedItems? names ns
    return (n :: ns, names)

/-- The entries of a mapping, with the anchors in them numbered in order. -/
def numberedEntries? (names : Fields Nat) :
    List (Node String × Node String) → Option (List (Node Nat × Node Nat) × Fields Nat)
  | [] => some ([], names)
  | (k, v) :: es => do
    let (k, names) ← numbered? names k
    let (v, names) ← numbered? names v
    let (es, names) ← numberedEntries? names es
    return ((k, v) :: es, names)

end

/-- The anchor of a node itself, if it has one. -/
def ownAnchor (p : Properties Nat) (n : Node Nat) : List (Nat × Node Nat) :=
  (p.anchor.map (·, n)).toList

mutual

/-- The nodes with an anchor, each before those inside it. -/
def anchored : Node Nat → List (Nat × Node Nat)
  | .alias _ => []
  | .scalar p text plain => ownAnchor p (.scalar p text plain)
  | .sequence p items => ownAnchor p (.sequence p items) ++ anchoredItems items
  | .mapping p entries => ownAnchor p (.mapping p entries) ++ anchoredEntries entries

/-- The anchored nodes in the items of a sequence. -/
def anchoredItems : List (Node Nat) → List (Nat × Node Nat)
  | [] => []
  | n :: ns => anchored n ++ anchoredItems ns

/-- The anchored nodes in the entries of a mapping. -/
def anchoredEntries : List (Node Nat × Node Nat) → List (Nat × Node Nat)
  | [] => []
  | (k, v) :: es => anchored k ++ anchored v ++ anchoredEntries es

end

variable {Label : Type}

mutual

/-- The size of a node: its scalars and aliases, and two for each of its collections. -/
def size : Node Label → Nat
  | .alias _ => 1
  | .scalar .. => 1
  | .sequence _ items => sizeItems items + 2
  | .mapping _ entries => sizeEntries entries + 2

/-- The number of nodes in the items of a sequence. -/
def sizeItems : List (Node Label) → Nat
  | [] => 0
  | n :: ns => size n + sizeItems ns

/-- The number of nodes in the entries of a mapping. -/
def sizeEntries : List (Node Label × Node Label) → Nat
  | [] => 0
  | (k, v) :: es => size k + size v + sizeEntries es

end

/-- How deep collections may be nested. -/
def maxDepth : Nat := 128

/-- How often aliases may be followed, for each node counted. -/
def aliasFactor : Nat := 100

/-- A reading that follows a limited number of aliases. -/
abbrev Following := StateT Nat Option

/-- The node itself, or the one that an alias stands for. -/
def target (table : List (Nat × Node Nat)) : Node Nat → Following (Node Nat)
  | .alias label => do
    let left ← get
    match left, table.lookup label with
    | left + 1, some n => do
      set left
      return n
    | _, _ => failure
  | n => return n

/-- The key of an entry: the text of a scalar, whatever it looks like. -/
def keyText (table : List (Nat × Node Nat)) (n : Node Nat) : Following String := do
  match ← target table n with
  | .scalar _ text _ => return text
  | _ => failure

/-- The data tree of a node, with collections nested at most `depth` deep. A later entry takes the
place of an earlier one with its key. -/
def datum (table : List (Nat × Node Nat)) (depth : Nat) (n : Node Nat) : Following Datum := do
  match ← target table n, depth with
  | .scalar p text plain, _ => StateT.lift (Scalar.datum? p.tag text plain)
  | .sequence p items, depth + 1 =>
    if Scalar.isLocal p.tag then failure
    else return .sequence (← items.mapM (datum table depth))
  | .mapping p entries, depth + 1 =>
    if Scalar.isLocal p.tag then failure
    else
      let pairs ← entries.mapM fun (k, v) => do
        let key ← keyText table k
        let d ← datum table depth v
        return (key, d)
      return .mapping (Fields.ofPairs pairs)
  | _, _ => failure

/-- The value of a document, with its aliases replaced by what they stand for. -/
def resolve? (n : Node String) : Option Datum := do
  let (n, _) ← n.numbered? []
  let (d, _) ← (n.datum n.anchored.reverse maxDepth).run (aliasFactor * n.size)
  return d

end Node

end Stencil.Yaml
