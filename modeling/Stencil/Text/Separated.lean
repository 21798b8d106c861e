/-!
# Separated items

Items between an opening and a closing character, with commas between them. What may stand around the
items, and whether a comma may stand behind the last one, is for the format to say.
-/

namespace Stencil.Text

variable {α : Type}

/-- What separates the items of a format. -/
structure Separation where
  /-- Leaves out what may stand before and behind an item. -/
  skip : List Char → List Char
  /-- Whether a comma may stand behind the last item. -/
  trailing : Bool

/-- The items up to the closing character, and the rest of the text; there is at least one. `seen`
holds, in reverse, the items already read. Each item takes a character, so that the length of the text
is enough `fuel`. -/
def separated? (form : Separation) (item : List Char → Option (α × List Char)) (close : Char)
    (seen : List α) : Nat → List Char → Option (List α × List Char)
  | 0, _ => none
  | fuel + 1, s => do
    let (a, s) ← item s
    match form.skip s with
    | [] => none
    | c :: s =>
      if c = close then some ((a :: seen).reverse, s)
      else if c = ',' then
        let s := form.skip s
        if form.trailing ∧ s.head? = some close then some ((a :: seen).reverse, s.tail)
        else separated? form item close (a :: seen) fuel s
      else none

/-- The items behind an opening character, up to the closing one; there may be none. -/
def bracketed? (form : Separation) (item : List Char → Option (α × List Char)) (close : Char)
    (s : List Char) : Option (List α × List Char) :=
  match form.skip s with
  | [] => none
  | c :: rest =>
    if c = close then some ([], rest) else separated? form item close [] (s.length + 1) (c :: rest)

end Stencil.Text
