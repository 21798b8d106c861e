import Stencil.Data.Value

/-!
# Rendering contexts

A context is a list of mappings. Placeholders are filled from the entries one by one; loops and
conditions read all of them at once, in a merged view where a later entry overrides an earlier one.

* `merged_push`: a pushed mapping overrides what was there.
* `merged_single`: one mapping is its own merged view.
-/

namespace Stencil

/-- What a template is rendered with: mappings in order, of which the later ones override the earlier
ones. -/
structure Context where
  entries : List Mapping

namespace Context

/-- No mapping at all. -/
def empty : Context := ⟨[]⟩

/-- One mapping. -/
def single (m : Mapping) : Context := ⟨[m]⟩

/-- One more mapping, which overrides all before it. -/
def push (c : Context) (m : Mapping) : Context := ⟨c.entries ++ [m]⟩

/-- The mappings of one context before those of another. -/
def append (c other : Context) : Context := ⟨c.entries ++ other.entries⟩

/-- A key put into the last mapping, which is made where there is none. -/
def insert (c : Context) (key : String) (value : Value) : Context :=
  match c.entries.getLast? with
  | none => single (Fields.insert [] key value)
  | some last => ⟨c.entries.dropLast ++ [Fields.insert last key value]⟩

/-- Whether no mapping has a field. -/
def isEmpty (c : Context) : Bool := c.entries.all List.isEmpty

/-- One mapping with the fields of all, where the last one of a key counts. -/
def merged (c : Context) : Mapping :=
  match c.entries with
  | [] => []
  | first :: rest => rest.foldl Fields.merge first

/-- A mapping is one entry; a sequence has an entry for each mapping in it; anything else has no
keys. -/
def ofValue : Value → Context
  | .mapping fields => single fields
  | .sequence items => ⟨items.filterMap Value.mapping?⟩
  | _ => empty

theorem merged_single (m : Mapping) : (single m).merged = m := rfl

theorem merged_push {c : Context} (h : c.entries ≠ []) (m : Mapping) :
    (c.push m).merged = c.merged.merge m := by
  obtain ⟨entries⟩ := c
  cases entries with
  | nil => exact absurd rfl h
  | cons first rest => simp [merged, push]

end Context

end Stencil
