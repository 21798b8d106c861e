/-!
# Selectors

The selector of an element by its id, with the characters that have a meaning in selectors escaped. A
selector that does not start with a number sign is not one by id, and stays as it is.

* `escapeChars_cons`: a selector by id is its id escaped, also where there is nothing to escape.
-/

namespace Stencil.Selector

/-- The characters that have a meaning of their own in a selector. -/
def specialChars : List Char := " !\"#$%&'()*+,./:;<=>?@[\\]^`\x7b|\x7d~".toList

/-- Whether a character has to be escaped. -/
def isSpecial (c : Char) : Bool := specialChars.contains c

/-- An id with a backslash before each special character. -/
def escapeId (id : List Char) : List Char :=
  id.flatMap fun c => if isSpecial c then ['\\', c] else [c]

/-- A selector by id with its id escaped, where there is something to escape. -/
def escaped? : List Char → Option (List Char)
  | '#' :: id => if id.any isSpecial then some ('#' :: escapeId id) else none
  | _ => none

/-- Whether the selector is by id and has something to escape in it. -/
def needsEscape (s : List Char) : Bool := (escaped? s).isSome

/-- The characters of an escaped selector. -/
def escapeChars (s : List Char) : List Char := (escaped? s).getD s

/-- A selector with its id escaped. A selector that is not by id stays as it is. -/
def escape (selector : String) : String := .ofList (escapeChars selector.toList)

theorem escapeId_of_not_any {id : List Char} (h : id.any isSpecial = false) : escapeId id = id := by
  induction id with
  | nil => rfl
  | cons c s ih =>
    rw [List.any_cons, Bool.or_eq_false_iff] at h
    rw [escapeId, List.flatMap_cons, h.1]
    exact congrArg (c :: ·) (ih h.2)

/-- Where there is nothing to escape, escaping would change nothing. -/
theorem escapeChars_cons (id : List Char) : escapeChars ('#' :: id) = '#' :: escapeId id := by
  rw [escapeChars, escaped?]
  split
  · rfl
  · next h => rw [escapeId_of_not_any (eq_false_of_ne_true h), Option.getD_none]

theorem escapeChars_of_head?_ne {s : List Char} (h : s.head? ≠ some '#') : escapeChars s = s := by
  unfold escapeChars escaped?
  split
  · exact absurd rfl h
  · rfl

end Stencil.Selector
