import Stencil.Data.Value

/-!
# Paths into data

A path names a value inside another by the keys on the way to it, separated by points.

* `Value.descend?_append`: a path is followed key by key, so that paths compose.
-/

namespace Stencil

namespace Path

/-- The keys of a path; a path has at least one, which may be empty. -/
def keys (path : String) : List String := (path.toList.splitOn '.').map String.ofList

end Path

namespace Value

/-- The value that `key` names in a mapping. -/
def child? (v : Value) (key : String) : Option Value := v.mapping?.bind (Fields.get? · key)

/-- The value at the end of a list of keys. -/
def descend? (v : Value) : List String → Option Value
  | [] => some v
  | key :: keys => (v.child? key).bind (descend? · keys)

/-- The value at the end of a path. -/
def at? (v : Value) (path : String) : Option Value := v.descend? (Path.keys path)

theorem descend?_append (v : Value) (ks ks' : List String) :
    v.descend? (ks ++ ks') = (v.descend? ks).bind (descend? · ks') := by
  induction ks generalizing v with
  | nil => rfl
  | cons k ks ih =>
    cases h : v.child? k with
    | none => simp [descend?, h]
    | some w => simp [descend?, h, ih]

end Value

end Stencil
