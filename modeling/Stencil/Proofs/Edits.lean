import Mathlib.Order.Bounds.Basic
import Mathlib.Order.MinMax
import Stencil.Text.Distance

/-!
# Edits

An edit inserts, deletes or replaces one character anywhere in a text. The distance between two texts is
the least number of edits on the way from one to the other: there are that many edits that do it,
chosen along the recursion, and one edit changes the distance to any text by one at most.

* `edits_distance`: as many edits as the distance are enough.
* `distance_le_of_edit`: one edit changes a distance by one at most.
* `isLeast_distance`: no fewer edits are enough.
-/

namespace Stencil.Text

variable {s t : List Char} {n : Nat}

/-- One character is inserted, deleted or replaced. -/
inductive Edit : List Char → List Char → Prop where
  | insert (front : List Char) (c : Char) (back : List Char) :
    Edit (front ++ back) (front ++ c :: back)
  | delete (front : List Char) (c : Char) (back : List Char) :
    Edit (front ++ c :: back) (front ++ back)
  | replace (front : List Char) (c d : Char) (back : List Char) :
    Edit (front ++ c :: back) (front ++ d :: back)

/-- So many edits lead from one text to the other. -/
inductive Edits : Nat → List Char → List Char → Prop where
  | none (s : List Char) : Edits 0 s s
  | more {n : Nat} {s t u : List Char} : Edit s t → Edits n t u → Edits (n + 1) s u

theorem Edit.cons (c : Char) (h : Edit s t) : Edit (c :: s) (c :: t) := by
  cases h with
  | insert front d back => exact .insert (c :: front) d back
  | delete front d back => exact .delete (c :: front) d back
  | replace front d e back => exact .replace (c :: front) d e back

theorem Edits.cons (c : Char) (h : Edits n s t) : Edits n (c :: s) (c :: t) := by
  induction h with
  | none s => exact .none (c :: s)
  | more he _ ih => exact .more (he.cons c) ih

/-! ### Enough edits -/

/-- The distance can be covered by that many edits. -/
theorem edits_distance (s t : List Char) : Edits (distance s t) s t := by
  induction s generalizing t with
  | nil =>
    induction t with
    | nil => exact .none []
    | cons d t ih =>
      rw [distance_nil_left, List.length_cons] at *
      exact .more (.insert [] d []) (ih.cons d)
  | cons c s ihs =>
    induction t with
    | nil =>
      rw [distance_nil_right, List.length_cons]
      have hrest := ihs []
      rw [distance_nil_right] at hrest
      exact .more (.delete [] c s) hrest
    | cons d t iht =>
      rw [distance_cons]
      -- the least of the three ways is one of them
      rcases min_choice (min (distance s (d :: t) + 1) (distance (c :: s) t + 1))
        (distance s t + if c = d then 0 else 1) with hmin | hmin <;> rw [hmin]
      · rcases min_choice (distance s (d :: t) + 1) (distance (c :: s) t + 1) with hmin' | hmin' <;>
          rw [hmin']
        · exact .more (.delete [] c s) (ihs (d :: t))
        · exact .more (.insert [] d (c :: s)) (iht.cons d)
      · by_cases hcd : c = d
        · rw [if_pos hcd, Nat.add_zero, hcd]
          exact (ihs t).cons d
        · rw [if_neg hcd]
          exact .more (.replace [] c d s) ((ihs t).cons d)

/-! ### No fewer edits -/

/-- One more character on the left costs at most one edit. -/
theorem distance_cons_left_le (c : Char) (s t : List Char) :
    distance (c :: s) t ≤ distance s t + 1 := by
  cases t with
  | nil => simp [distance_nil_right]
  | cons d t =>
    rw [distance_cons]
    omega

/-- One more character on the right costs at most one edit. -/
theorem distance_cons_right_le (d : Char) (s t : List Char) :
    distance s (d :: t) ≤ distance s t + 1 := by
  cases s with
  | nil => simp [distance_nil_left]
  | cons c s =>
    rw [distance_cons]
    omega

/-- One character less on the left costs at most one edit. -/
theorem distance_le_cons_left (c : Char) (s t : List Char) :
    distance s t ≤ distance (c :: s) t + 1 := by
  induction t with
  | nil =>
    simp only [distance_nil_right, List.length_cons]
    omega
  | cons d t ih =>
    have hright := distance_cons_right_le d s t
    rw [distance_cons]
    omega

/-- Another character costs at most one edit. -/
theorem distance_replace_le (c d : Char) (s t : List Char) :
    distance (c :: s) t ≤ distance (d :: s) t + 1 := by
  induction t with
  | nil => simp [distance_nil_right]
  | cons e t ih =>
    rw [distance_cons c e, distance_cons d e]
    split <;> split <;> omega

/-- Texts at most one apart from all others stay so behind one more character. -/
theorem distance_cons_cons_le (h : ∀ u, distance s u ≤ distance t u + 1) (c : Char)
    (u : List Char) : distance (c :: s) u ≤ distance (c :: t) u + 1 := by
  induction u with
  | nil =>
    have hnil := h []
    simp only [distance_nil_right, List.length_cons] at *
    omega
  | cons e u ih =>
    have hhead := h (e :: u)
    have htail := h u
    rw [distance_cons, distance_cons]
    omega

/-- What costs one edit costs no more behind a common front. -/
theorem distance_append_le (h : ∀ u, distance s u ≤ distance t u + 1) (front u : List Char) :
    distance (front ++ s) u ≤ distance (front ++ t) u + 1 := by
  induction front generalizing u with
  | nil => exact h u
  | cons c front ih => exact distance_cons_cons_le ih c u

/-- **One edit changes a distance by one at most.** -/
theorem distance_le_of_edit (h : Edit s t) (u : List Char) : distance s u ≤ distance t u + 1 := by
  cases h with
  | insert front c back => exact distance_append_le (distance_le_cons_left c back) front u
  | delete front c back => exact distance_append_le (distance_cons_left_le c back) front u
  | replace front c d back => exact distance_append_le (distance_replace_le c d back) front u

/-- No edit is needed between a text and itself. -/
theorem distance_self (s : List Char) : distance s s = 0 := by
  induction s with
  | nil => rfl
  | cons c s ih =>
    rw [distance_cons, ih, if_pos rfl]
    omega

/-- No fewer edits will do, by induction on them. -/
theorem distance_le_of_edits (h : Edits n s t) : distance s t ≤ n := by
  induction h with
  | none s => rw [distance_self]
  | @more n s t u he _ ih =>
    have hstep := distance_le_of_edit he u
    omega

/-- **The distance is the least number of edits.** -/
theorem isLeast_distance (s t : List Char) : IsLeast {n | Edits n s t} (distance s t) :=
  ⟨edits_distance s t, fun _ h => distance_le_of_edits h⟩

/-- Two characters in each other's place take two edits. -/
example : distance "onOpne".toList "onOpen".toList = 2 := by decide

end Stencil.Text
