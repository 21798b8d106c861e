import Mathlib.Data.List.Induction
import Stencil.Data.Context
import Stencil.Proofs.Offers

/-!
# Contexts that change

A context is built from a value, from one mapping or from a list of them, and is then changed: mappings
are pushed and keys are inserted. Whatever its entries are, the merged view has each key from the last
entry that binds it, so that a pushed mapping overrides it and an inserted key is the only one to change.

Sorted fields are determined by what is found in them (`Fields.ext_of_sorted`): what a change does to each
key says what it does to the whole view.

* `Context.pushInduction`: a context is empty, or a mapping has been pushed onto a shorter one.
* `Context.merged_push_of_isSorted`, `Context.merged_insert`: what one change does to the merged view.
* `Context.lastWins`: the laws of the merged view hold of every context whose keys are in order.
* `Context.lastWins_after`: so they hold at the end of every run of changes.
-/

namespace Stencil

/-! ### Sorted fields -/

namespace Fields

variable {α : Type} {m m' : Fields α}

theorem get?_of_mem (h : Sorted m) {p : String × α} (hp : p ∈ m) : m.get? p.1 = some p.2 := by
  induction m with
  | nil => cases hp
  | cons q m ih =>
    obtain ⟨hq, hm⟩ := List.pairwise_cons.1 h
    obtain ⟨k, v⟩ := q
    rw [get?_cons]
    rcases List.mem_cons.1 hp with rfl | hp
    · exact if_pos rfl
    · have hne : p.1 ≠ k := by
        intro he
        have hlt := hq p hp
        rw [he] at hlt
        exact String.lt_irrefl _ hlt
      rw [if_neg hne]
      exact ih hm hp

/-- **Sorted fields are determined by what is found in them.** -/
theorem ext_of_sorted (h : Sorted m) (h' : Sorted m') (hget : ∀ key, m.get? key = m'.get? key) :
    m = m' := by
  have hirrefl : ∀ {p q : String × α}, p.1 < q.1 → p ≠ q := by
    rintro p q hlt rfl
    exact String.lt_irrefl _ hlt
  have hsame : ∀ p, p ∈ m ↔ p ∈ m' := by
    intro p
    constructor
    · intro hp
      exact mem_of_get? (hget p.1 ▸ get?_of_mem h hp)
    · intro hp
      exact mem_of_get? (hget p.1 ▸ get?_of_mem h' hp)
  have hperm : m.Perm m' := (List.perm_ext_iff_of_nodup (h.imp hirrefl) (h'.imp hirrefl)).2 hsame
  refine hperm.eq_of_pairwise (fun p q _ _ hlt hgt => ?_) h h'
  exact absurd (String.lt_trans hlt hgt) (String.lt_irrefl _)

/-- A collection with an entry put in is not empty. -/
theorem insert_ne_nil (m : Fields α) (key : String) (value : α) : insert m key value ≠ [] := by
  cases m with
  | nil => exact List.cons_ne_nil _ _
  | cons p m =>
    unfold insert
    split
    · exact List.cons_ne_nil _ _
    · split <;> exact List.cons_ne_nil _ _

/-- Merging is empty only where both are. -/
theorem merge_eq_nil_iff {m other : Fields α} : merge m other = [] ↔ m = [] ∧ other = [] := by
  induction other generalizing m with
  | nil => simp [merge]
  | cons p other ih =>
    have hstep : merge m (p :: other) = merge (insert m p.1 p.2) other := rfl
    rw [hstep, ih]
    simp [insert_ne_nil]

/-- Merging with nothing puts the entries in order. -/
theorem merge_nil_left (h : Sorted m) : merge [] m = m := by
  refine ext_of_sorted (sorted_merge List.Pairwise.nil m) h fun key => ?_
  rw [get?_merge h]
  exact Option.or_none

end Fields

/-! ### Changes -/

/-- What a context is built from. -/
inductive ContextOrigin where
  | value (v : Value)
  | single (m : Mapping)
  | list (ms : List Mapping)

/-- The context itself. -/
def ContextOrigin.context : ContextOrigin → Context
  | value v => .ofValue v
  | single m => .single m
  | list ms => ⟨ms⟩

/-- A change of a context. -/
inductive ContextChange where
  | push (m : Mapping)
  | insert (key : String) (value : Value)

namespace ContextChange

/-- What a change does to a merged view. -/
def apply (merged : Mapping) : ContextChange → Mapping
  | push m => merged.merge m
  | insert key value => Fields.insert merged key value

/-- A mapping that is pushed has its keys in order. -/
def IsSorted : ContextChange → Prop
  | push m => Fields.Sorted m
  | insert .. => True

end ContextChange

namespace Context

variable {c : Context} {m : Mapping} {key : String} {value : Value} {changes : List ContextChange}

/-- The context after a change. -/
def change (c : Context) : ContextChange → Context
  | .push m => c.push m
  | .insert key value => c.insert key value

/-- The context after some changes. -/
def after (c : Context) (changes : List ContextChange) : Context := changes.foldl change c

/-- **Induction on the entries, from the first on.** -/
theorem pushInduction {P : Context → Prop} (empty : P empty) (push : ∀ c m, P c → P (c.push m))
    (c : Context) : P c := by
  obtain ⟨entries⟩ := c
  induction entries using List.reverseRecOn with
  | nil => exact empty
  | append_singleton entries m ih => exact push ⟨entries⟩ m ih

/-- A key is put into the mapping that was pushed last. -/
theorem insert_push (c : Context) (m : Mapping) (key : String) (value : Value) :
    (c.push m).insert key value = c.push (Fields.insert m key value) := by
  simp [insert, push]

/-! ### Keys in order -/

/-- A mapping is pushed in order. -/
theorem isSorted_push : (c.push m).IsSorted ↔ c.IsSorted ∧ Fields.Sorted m := by
  unfold IsSorted push
  rw [List.forall_mem_append, List.forall_mem_singleton]

/-- Inserting keeps the order of names. -/
theorem isSorted_insert (h : c.IsSorted) (key : String) (value : Value) :
    (c.insert key value).IsSorted := by
  induction c using pushInduction with
  | empty => exact isSorted_push.2 ⟨h, Fields.sorted_insert List.Pairwise.nil key value⟩
  | push c m ih =>
    obtain ⟨hc, hm⟩ := isSorted_push.1 h
    rw [insert_push]
    exact isSorted_push.2 ⟨hc, Fields.sorted_insert hm key value⟩

/-- What a change keeps. -/
theorem isSorted_change (h : c.IsSorted) {d : ContextChange} (hd : d.IsSorted) :
    (c.change d).IsSorted := by
  cases d with
  | push m => exact isSorted_push.2 ⟨h, hd⟩
  | insert key value => exact isSorted_insert h key value

/-- Every change keeps the order of names, and so do all of them. -/
theorem isSorted_after (h : c.IsSorted) (hchanges : ∀ d ∈ changes, d.IsSorted) :
    (c.after changes).IsSorted := by
  induction changes generalizing c with
  | nil => exact h
  | cons d changes ih =>
    obtain ⟨hd, hrest⟩ := List.forall_mem_cons.1 hchanges
    exact ih (isSorted_change h hd) hrest

/-! ### The merged view -/

/-- **A pushed mapping overrides the merged view**, also that of a context without entries. -/
theorem merged_push_of_isSorted (h : (c.push m).IsSorted) : (c.push m).merged = c.merged.merge m := by
  by_cases hentries : c.entries = []
  · obtain rfl : c = empty := congrArg Context.mk hentries
    exact (Fields.merge_nil_left (isSorted_push.1 h).2).symm
  · exact merged_push hentries m

/-- The merged view has its names in order. -/
theorem sorted_merged (h : c.IsSorted) : Fields.Sorted c.merged := by
  induction c using pushInduction with
  | empty => exact List.Pairwise.nil
  | push c m ih =>
    rw [merged_push_of_isSorted h]
    exact Fields.sorted_merge (ih (isSorted_push.1 h).1) m

/-- The cases of the merged view come to one: the entries merged in order. -/
theorem merged_eq_foldl (h : c.IsSorted) : c.merged = c.entries.foldl Fields.merge [] := by
  induction c using pushInduction with
  | empty => rfl
  | push c m ih =>
    have hentries : (c.push m).entries = c.entries ++ [m] := rfl
    rw [merged_push_of_isSorted h, ih (isSorted_push.1 h).1, hentries, List.foldl_append]
    rfl

/-- A context is empty where its merged view is. -/
theorem isEmpty_iff (h : c.IsSorted) : c.isEmpty = true ↔ c.merged = [] := by
  induction c using pushInduction with
  | empty => exact iff_of_true rfl rfl
  | push c m ih =>
    have hpush : (c.push m).isEmpty = (c.isEmpty && m.isEmpty) := by
      simp [isEmpty, push]
    rw [merged_push_of_isSorted h, hpush, Bool.and_eq_true, ih (isSorted_push.1 h).1, List.isEmpty_iff,
      Fields.merge_eq_nil_iff]

/-- A pushed mapping goes before what was there. -/
theorem get?_merged_push (h : (c.push m).IsSorted) (key : String) :
    (c.push m).merged.get? key = (m.get? key).or (c.merged.get? key) := by
  rw [merged_push_of_isSorted h, Fields.get?_merge (isSorted_push.1 h).2]

/-- An inserted value is found under its key, and all else as before. -/
theorem get?_merged_insert (h : c.IsSorted) (key : String) (value : Value) (other : String) :
    (c.insert key value).merged.get? other = if other = key then some value else c.merged.get? other := by
  induction c using pushInduction with
  | empty => exact Fields.get?_insert [] key other value
  | push c m ih =>
    have hinsert := isSorted_insert h key value
    rw [insert_push] at hinsert ⊢
    rw [get?_merged_push hinsert, get?_merged_push h, Fields.get?_insert]
    split <;> rfl

/-- **An inserted key is put into the merged view.** -/
theorem merged_insert (h : c.IsSorted) (key : String) (value : Value) :
    (c.insert key value).merged = Fields.insert c.merged key value := by
  refine Fields.ext_of_sorted (sorted_merged (isSorted_insert h key value))
    (Fields.sorted_insert (sorted_merged h) key value) fun other => ?_
  rw [get?_merged_insert h, Fields.get?_insert]

/-- The view of a context that changes is changed alike. -/
theorem merged_change (h : c.IsSorted) {d : ContextChange} (hd : d.IsSorted) :
    (c.change d).merged = d.apply c.merged := by
  cases d with
  | push m => exact merged_push_of_isSorted (isSorted_push.2 ⟨h, hd⟩)
  | insert key value => exact merged_insert h key value

/-- **The merged view follows the changes**, by induction on them. -/
theorem merged_after (h : c.IsSorted) (hchanges : ∀ d ∈ changes, d.IsSorted) :
    (c.after changes).merged = changes.foldl ContextChange.apply c.merged := by
  induction changes generalizing c with
  | nil => rfl
  | cons d changes ih =>
    obtain ⟨hd, hrest⟩ := List.forall_mem_cons.1 hchanges
    rw [List.foldl_cons, ← merged_change h hd]
    exact ih (isSorted_change h hd) hrest

/-! ### The last entry wins -/

/-- What is found comes from the last mapping with the key. -/
theorem get?_merged_eq_some_iff (h : c.IsSorted) : c.merged.get? key = some value ↔
    ∃ earlier m later, c.entries = earlier ++ m :: later ∧ m.get? key = some value ∧
      ∀ m' ∈ later, Fields.get? m' key = none := by
  rw [get?_merged h, List.findSome?_eq_some_iff]
  constructor
  · rintro ⟨later, m, earlier, hentries, hm, hlater⟩
    refine ⟨earlier.reverse, m, later.reverse, ?_, hm, fun m' hm' => hlater m' (List.mem_reverse.1 hm')⟩
    rw [← List.reverse_reverse c.entries, hentries]
    simp
  · rintro ⟨earlier, m, later, hentries, hm, hlater⟩
    refine ⟨later.reverse, m, earlier.reverse, ?_, hm, fun m' hm' => hlater m' (List.mem_reverse.1 hm')⟩
    rw [hentries]
    simp

/-- Nothing is found where no mapping has the key. -/
theorem get?_merged_eq_none_iff (h : c.IsSorted) :
    c.merged.get? key = none ↔ ∀ m ∈ c.entries, Fields.get? m key = none := by
  rw [get?_merged h, List.findSome?_eq_none_iff]
  simp only [List.mem_reverse]

/-- The laws of the merged view. -/
structure LastWins (c : Context) : Prop where
  /-- A key has the value that it has in the last entry with the key. -/
  found : ∀ key value, c.merged.get? key = some value ↔
    ∃ earlier m later, c.entries = earlier ++ m :: later ∧ m.get? key = some value ∧
      ∀ m' ∈ later, Fields.get? m' key = none
  absent : ∀ key, c.merged.get? key = none ↔ ∀ m ∈ c.entries, Fields.get? m key = none
  push : ∀ m, Fields.Sorted m → (c.push m).merged = c.merged.merge m ∧
    ∀ key, (c.push m).merged.get? key = (m.get? key).or (c.merged.get? key)
  insert : ∀ key value, (c.insert key value).merged = Fields.insert c.merged key value ∧
    ∀ other, (c.insert key value).merged.get? other =
      if other = key then some value else c.merged.get? other
  isEmpty : c.isEmpty = true ↔ c.merged = []
  /-- Contexts with no entry and with one are no exceptions. -/
  folded : c.merged = c.entries.foldl Fields.merge []

/-- **The last one wins** in every context whose names are in order. -/
theorem lastWins (h : c.IsSorted) : c.LastWins where
  found _ _ := get?_merged_eq_some_iff h
  absent _ := get?_merged_eq_none_iff h
  push _ hm :=
    have hpush := isSorted_push.2 ⟨h, hm⟩
    ⟨merged_push_of_isSorted hpush, get?_merged_push hpush⟩
  insert key value := ⟨merged_insert h key value, get?_merged_insert h key value⟩
  isEmpty := isEmpty_iff h
  folded := merged_eq_foldl h

/-- **The last entry wins after every run of changes.** The laws of the merged view hold of the context, and
its merged view is that of the origin with the same changes made to it. The mappings that come in have their
keys in order, each once; those that changes make keep them so. -/
theorem lastWins_after (origin : ContextOrigin) (changes : List ContextChange)
    (horigin : origin.context.IsSorted) (hchanges : ∀ d ∈ changes, d.IsSorted) :
    (origin.context.after changes).LastWins ∧
      (origin.context.after changes).merged =
        changes.foldl ContextChange.apply origin.context.merged :=
  ⟨lastWins (isSorted_after horigin hchanges), merged_after horigin hchanges⟩

/-- An empty mapping in front, a mapping that overrides, and a key that goes to the last entry. -/
theorem pushed_key_wins :
    let origin := ContextOrigin.list [[], [("a", .string "1"), ("b", .string "1")]]
    let changes := [ContextChange.push [("a", .string "2")], .insert "c" .null]
    (origin.context.after changes).merged.get? "a" = some (.string "2") ∧
      (origin.context.after changes).merged.get? "b" = some (.string "1") ∧
      ((origin.context.after changes).insert "b" .null).merged.get? "a" = some (.string "2") := by
  intro origin changes
  have horigin : origin.context.IsSorted := by decide
  have hpushed : Fields.Sorted [("a", Value.string "2")] := by decide
  have hchanges : ∀ d ∈ changes, d.IsSorted :=
    List.forall_mem_cons.2 ⟨hpushed, List.forall_mem_singleton.2 trivial⟩
  have hlast : (origin.context.after changes).entries = [[], [("a", .string "1"), ("b", .string "1")]] ++
      [("a", .string "2"), ("c", .null)] :: [] := rfl
  have hsecond : (origin.context.after changes).entries = [[]] ++
      [("a", .string "1"), ("b", .string "1")] :: [[("a", .string "2"), ("c", .null)]] := rfl
  obtain ⟨hlaws, -⟩ := lastWins_after origin changes horigin hchanges
  have ha := (hlaws.found "a" (.string "2")).2 ⟨_, _, _, hlast, rfl, nofun⟩
  have hb := (hlaws.found "b" (.string "1")).2 ⟨_, _, _, hsecond, rfl, List.forall_mem_singleton.2 rfl⟩
  refine ⟨ha, hb, ?_⟩
  rw [(hlaws.insert "b" .null).2 "a", if_neg (by decide), ha]

end Context

end Stencil
