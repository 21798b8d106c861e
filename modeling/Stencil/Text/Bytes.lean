/-!
# Byte positions

Positions in a text are counted in bytes of its UTF-8 form, while a text is handled as a list of
characters. This module measures texts and cuts them at byte positions.

* `size_append`: the size of a joined text is the sum of the sizes.
* `cut?_eq_some_iff`: a text is cut at `n` exactly when some front part of it has size `n`.
-/

namespace Stencil.Text

/-- Bytes of the UTF-8 form of `s`. -/
def size (s : List Char) : Nat := s.foldl (fun n c => n + c.utf8Size) 0

theorem foldl_size (s : List Char) (n : Nat) :
    s.foldl (fun n c => n + c.utf8Size) n = n + size s := by
  induction s generalizing n with
  | nil => rfl
  | cons c s ih => rw [size, List.foldl_cons, List.foldl_cons, ih, ih]; omega

@[simp] theorem size_nil : size [] = 0 := rfl

@[simp] theorem size_cons (c : Char) (s : List Char) : size (c :: s) = c.utf8Size + size s := by
  rw [size, List.foldl_cons, foldl_size]; omega

@[simp] theorem size_append (s t : List Char) : size (s ++ t) = size s + size t := by
  rw [size, List.foldl_append, foldl_size, ← size]

theorem size_pos {s : List Char} (h : s ≠ []) : 0 < size s := by
  cases s with
  | nil => exact absurd rfl h
  | cons c s => rw [size_cons]; have := c.utf8Size_pos; omega

/-- The parts of `s` before and after byte position `n`; `seen` holds, in reverse, the characters
already passed. There is no such cut past the end or inside a character. -/
def cut? (seen : List Char) : Nat → List Char → Option (List Char × List Char)
  | 0, s => some (seen.reverse, s)
  | _ + 1, [] => none
  | n + 1, c :: s => if c.utf8Size ≤ n + 1 then cut? (c :: seen) (n + 1 - c.utf8Size) s else none

theorem cut?_size (seen front back : List Char) :
    cut? seen (size front) (front ++ back) = some (seen.reverse ++ front, back) := by
  induction front generalizing seen with
  | nil => simp [cut?]
  | cons c front ih =>
    have hc := c.utf8Size_pos
    obtain ⟨n, hn⟩ : ∃ n, size (c :: front) = n + 1 := ⟨size (c :: front) - 1, by simp; omega⟩
    have hle : c.utf8Size ≤ n + 1 := by rw [← hn, size_cons]; omega
    have hsub : n + 1 - c.utf8Size = size front := by rw [← hn, size_cons]; omega
    rw [hn, List.cons_append, cut?, if_pos hle, hsub, ih]
    simp

theorem cut?_sound {seen s a b : List Char} {n : Nat} (h : cut? seen n s = some (a, b)) :
    ∃ front, a = seen.reverse ++ front ∧ s = front ++ b ∧ size front = n := by
  fun_induction cut? seen n s with
  | case1 seen s => simp_all
  | case2 => simp at h
  | case3 seen n c s hc ih =>
    obtain ⟨front, rfl, rfl, hsize⟩ := ih h
    exact ⟨c :: front, by simp, by simp, by simp [hsize]; omega⟩
  | case4 => simp at h

theorem cut?_eq_some_iff {s a b : List Char} {n : Nat} :
    cut? [] n s = some (a, b) ↔ s = a ++ b ∧ size a = n := by
  constructor
  · intro h
    obtain ⟨front, rfl, rfl, hn⟩ := cut?_sound h
    simpa using hn
  · rintro ⟨rfl, rfl⟩
    simpa using cut?_size [] a b

end Stencil.Text
