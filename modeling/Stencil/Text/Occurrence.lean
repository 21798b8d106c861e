/-!
# First occurrences

Finding and replacing the first occurrence of a piece of text.

* `after?_eq_some_iff`: what follows a leading `needle`.
* `split?_append`: the two sides of an occurrence and the needle make up the text.
-/

namespace Stencil.Text

/-- What is left of the text after a leading `needle`. -/
def after? : List Char → List Char → Option (List Char)
  | [], s => some s
  | _ :: _, [] => none
  | c :: needle, d :: s => if c = d then after? needle s else none

@[simp] theorem after?_append (needle s : List Char) : after? needle (needle ++ s) = some s := by
  induction needle with
  | nil => rfl
  | cons c needle ih => simp [after?, ih]

/-- What is left behind the needle. -/
theorem after?_eq_some_iff {needle s t : List Char} :
    after? needle s = some t ↔ s = needle ++ t := by
  constructor
  · intro h
    fun_induction after? needle s with
    | case1 s => simpa using h
    | case2 => simp at h
    | case3 c needle s ih => rw [ih h]; rfl
    | case4 => simp at h
  · rintro rfl
    exact after?_append needle t

/-- The text before and after the first occurrence of `needle`; `seen` holds, in reverse, the
characters already passed. -/
def split? (needle seen : List Char) : List Char → Option (List Char × List Char)
  | [] => (after? needle []).map (seen.reverse, ·)
  | c :: s =>
    match after? needle (c :: s) with
    | some t => some (seen.reverse, t)
    | none => split? needle (c :: seen) s

theorem split?_append {needle seen s a b : List Char} (h : split? needle seen s = some (a, b)) :
    seen.reverse ++ s = a ++ needle ++ b := by
  fun_induction split? needle seen s with
  | case1 seen =>
    obtain ⟨t, ht, he⟩ := Option.map_eq_some_iff.1 h
    rw [after?_eq_some_iff.1 ht]
    simp_all
  | case2 seen c s t ht =>
    rw [after?_eq_some_iff.1 ht]
    simp_all
  | case3 seen c s _ ih => simpa using ih h

/-- The first occurrence of `needle` replaced; the text itself where there is none. -/
def replaceFirst (needle replacement s : List Char) : List Char :=
  match split? needle [] s with
  | some (a, b) => a ++ replacement ++ b
  | none => s

end Stencil.Text
