/-!
# Fields

A collection of named entries, kept in the order of their names, code point by code point. Each name
has one entry: a later one takes the place of an earlier one.

* `get?_insert`: what is found after an entry is put in.
* `sorted_insert`: the order is kept.
* `mem_keys_iff`, `nodup_keys`: the names are those that are found, each listed once.
-/

namespace Stencil

/-- Named entries in the order of their names. -/
abbrev Fields (α : Type) := List (String × α)

namespace Fields

variable {α : Type}

/-- Names increase from entry to entry. -/
def Sorted (m : Fields α) : Prop := m.Pairwise fun a b => a.1 < b.1

instance (m : Fields α) : Decidable (Sorted m) :=
  inferInstanceAs (Decidable (m.Pairwise fun a b => a.1 < b.1))

/-- The entry of a name. -/
def get? (m : Fields α) (key : String) : Option α := m.lookup key

/-- Whether a name has an entry. -/
def contains (m : Fields α) (key : String) : Bool := (m.get? key).isSome

/-- The names in order. -/
def keys (m : Fields α) : List String := m.map Prod.fst

/-- Puts an entry in at its place, where it takes the place of an entry of the same name. -/
def insert (m : Fields α) (key : String) (value : α) : Fields α :=
  match m with
  | [] => [(key, value)]
  | (k, v) :: rest =>
    if key < k then (key, value) :: (k, v) :: rest
    else if key = k then (key, value) :: rest
    else (k, v) :: insert rest key value

/-- Entries put in one after the other. -/
def ofPairs (pairs : List (String × α)) : Fields α :=
  pairs.foldl (fun m p => insert m p.1 p.2) []

/-- The entries of both, those of `other` where a name has two. -/
def merge (m other : Fields α) : Fields α :=
  other.foldl (fun m p => insert m p.1 p.2) m

theorem get?_cons (k key : String) (v : α) (m : Fields α) :
    get? ((k, v) :: m) key = if key = k then some v else get? m key := by
  by_cases h : key = k
  · simp [get?, h]
  · rw [if_neg h, get?, List.lookup_cons, beq_false_of_ne h]; rfl

theorem mem_keys_iff {m : Fields α} {key : String} : key ∈ m.keys ↔ (m.get? key).isSome = true := by
  induction m with
  | nil => simp [keys, get?]
  | cons p m ih =>
    obtain ⟨k, v⟩ := p
    rw [get?_cons, keys, List.map_cons, List.mem_cons, ← keys, ih]
    split
    · next h => simp [h]
    · next h => simp [h]

/-- What is found after an entry is put in. -/
theorem get?_insert (m : Fields α) (key k : String) (value : α) :
    get? (insert m key value) k = if k = key then some value else get? m k := by
  induction m with
  | nil => rw [insert, get?_cons]
  | cons p m ih =>
    obtain ⟨k', v'⟩ := p
    rw [insert]
    split
    · rw [get?_cons]
    · split
      · next h => subst h; rw [get?_cons, get?_cons]; split <;> rfl
      · next h =>
        rw [get?_cons, ih, get?_cons]
        by_cases hk : k = k'
        · have : k ≠ key := fun he => h (he ▸ hk)
          simp [hk, hk ▸ this]
        · simp [hk]

theorem fst_mem_insert {m : Fields α} {key : String} {value : α} {p : String × α}
    (h : p ∈ insert m key value) : p.1 = key ∨ p ∈ m := by
  induction m with
  | nil => simp_all [insert]
  | cons q m ih =>
    rw [insert] at h
    split at h
    · rcases List.mem_cons.1 h with rfl | h
      · exact .inl rfl
      · exact .inr h
    · split at h
      · rcases List.mem_cons.1 h with rfl | h
        · exact .inl rfl
        · exact .inr (List.mem_cons_of_mem _ h)
      · rcases List.mem_cons.1 h with rfl | h
        · exact .inr List.mem_cons_self
        · exact (ih h).imp_right (List.mem_cons_of_mem _)

/-- Putting an entry in keeps the order. -/
theorem sorted_insert {m : Fields α} (h : Sorted m) (key : String) (value : α) :
    Sorted (insert m key value) := by
  induction m with
  | nil => exact List.pairwise_singleton _ _
  | cons p m ih =>
    obtain ⟨hp, hm⟩ := List.pairwise_cons.1 h
    rw [insert]
    split
    · next hlt =>
      refine List.pairwise_cons.2 ⟨fun q hq => ?_, h⟩
      rcases List.mem_cons.1 hq with rfl | hq
      · exact hlt
      · exact String.lt_trans hlt (hp q hq)
    · next hnlt =>
      split
      · next heq => exact List.pairwise_cons.2 ⟨fun q hq => heq ▸ hp q hq, hm⟩
      · next hne =>
        refine List.pairwise_cons.2 ⟨fun q hq => ?_, ih hm⟩
        rcases fst_mem_insert hq with hk | hq
        · have hle : p.1 ≤ key := String.not_lt.1 hnlt
          rw [hk]
          exact String.not_le.1 fun h' => hne (String.le_antisymm h' hle)
        · exact hp q hq

/-- No name has two entries. -/
theorem nodup_keys {m : Fields α} (h : Sorted m) : m.keys.Nodup := by
  refine List.pairwise_map.2 (h.imp fun hlt heq => ?_)
  rw [heq] at hlt
  exact String.lt_irrefl _ hlt

theorem sorted_merge {m : Fields α} (h : Sorted m) (other : Fields α) : Sorted (merge m other) := by
  induction other generalizing m with
  | nil => exact h
  | cons p other ih => exact ih (sorted_insert h p.1 p.2)

theorem sorted_ofPairs (pairs : List (String × α)) : Sorted (ofPairs pairs) :=
  sorted_merge List.Pairwise.nil pairs

end Fields

end Stencil
