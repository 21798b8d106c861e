/-!
# Edit distance

The least number of characters to insert, delete or replace on the way from one text to another. It is
computed for all ends of the second text at once, so that no distance is computed twice.

* `distance_nil_left`, `distance_nil_right`: the distance to the empty text is the length.
* `distance_cons`: the recursion that defines the distance.
-/

namespace Stencil.Text

/-- The distances from `c :: s` to the ends of a text, from the longest to the empty one, given those
from `s`. -/
def distancesStep (c : Char) : List Char → List Nat → List Nat
  | [], before => [before.headD 0 + 1]
  | d :: t, before =>
    let shorter := distancesStep c t before.tail
    min (min (before.headD 0 + 1) (shorter.headD 0 + 1))
      (before.tail.headD 0 + if c = d then 0 else 1) :: shorter

/-- The lengths of the ends of a text. -/
def endLengths : List Char → List Nat
  | [] => [0]
  | _ :: t => (t.length + 1) :: endLengths t

/-- The distances from a text to the ends of another, from the longest to the empty one. -/
def distances : List Char → List Char → List Nat
  | [], t => endLengths t
  | c :: s, t => distancesStep c t (distances s t)

/-- The number of single edits that lead from one text to another. -/
def distance (s t : List Char) : Nat := (distances s t).headD 0

theorem tail_distances (s : List Char) (d : Char) (t : List Char) :
    (distances s (d :: t)).tail = distances s t := by
  induction s with
  | nil => rfl
  | cons c s ih => rw [distances, distances, distancesStep, List.tail_cons, ih]

theorem distance_nil_left (t : List Char) : distance [] t = t.length := by
  cases t <;> rfl

theorem distance_nil_right (s : List Char) : distance s [] = s.length := by
  induction s with
  | nil => rfl
  | cons c s ih => exact congrArg (· + 1) ih

/-- The usual recurrence: an insertion, a deletion, or a replacement unless the characters are alike. -/
theorem distance_cons (c d : Char) (s t : List Char) :
    distance (c :: s) (d :: t) =
      min (min (distance s (d :: t) + 1) (distance (c :: s) t + 1))
        (distance s t + if c = d then 0 else 1) := by
  rw [distance, distances, distancesStep, tail_distances]
  rfl

end Stencil.Text
