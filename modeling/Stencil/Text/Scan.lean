import Stencil.Text.Bytes
import Stencil.Text.Reader

/-!
# Scanning a text for constructs

A scan goes through a text from left to right, takes a construct wherever a recogniser finds one,
and goes on behind it. It cuts the text into pieces: the constructs, and the plain text around them.

* `pieces_cons_some`, `pieces_cons_none`: one step of a scan.
* `flatten_pieces`: the pieces make up the text.
-/

namespace Stencil.Text

/-- A recogniser is a reader that never succeeds without taking a character. -/
structure Recogniser (α : Type) extends Reader α where
  advances : ∀ {s a front rest}, read s = some (a, front, rest) → front ≠ []

namespace Recogniser

variable {α β : Type}

/-- Recognises the given characters. -/
def exactly (needle : List Char) (h : needle ≠ []) : Recogniser Unit where
  toReader := .exactly needle
  advances := by
    intro s a front rest hr
    obtain ⟨t, -, he⟩ := Option.map_eq_some_iff.1 hr
    simp_all

/-- Reads on behind a recognised construct. -/
def followedBy (r : Recogniser α) (f : α → Reader β) : Recogniser β where
  toReader := r.toReader >>= f
  advances := by
    intro s b front rest h
    simp only [Bind.bind, Reader.bind] at h
    split at h
    · exact absurd h nofun
    · next hr =>
      split at h
      · exact absurd h nofun
      · obtain ⟨-, rfl, -⟩ := h
        exact List.append_ne_nil_of_left_ne_nil (r.advances hr) _

/-- Recognises by the second one what the first one does not. -/
def orElse (r q : Recogniser α) : Recogniser α where
  toReader := r.toReader <|> q.toReader
  advances := by
    intro s a front rest h
    simp only [HOrElse.hOrElse, OrElse.orElse, Reader.orElse] at h
    split at h
    · exact q.advances h
    · next hr => exact r.advances (hr.trans h)

instance : OrElse (Recogniser α) where
  orElse r q := r.orElse (q ())

/-- Recognises the same characters, with another value. -/
def map (f : α → β) (r : Recogniser α) : Recogniser β := r.followedBy fun a => pure (f a)

theorem length_lt (r : Recogniser α) {s front rest : List Char} {a : α}
    (h : r.read s = some (a, front, rest)) : rest.length < s.length := by
  have := List.length_pos_iff.2 (r.advances h)
  rw [r.faithful h, List.length_append]
  omega

end Recogniser

/-- A piece of a scanned text. -/
inductive Piece (α : Type) where
  | plain (text : List Char)
  | found (value : α) (lexeme : List Char)

namespace Piece

variable {α : Type}

/-- The characters of a piece. -/
def text : Piece α → List Char
  | plain text => text
  | found _ lexeme => lexeme

/-- The text with every construct replaced by what `f` makes of its value and its own text. -/
def splice (f : α → List Char → List Char) (ps : List (Piece α)) : List Char :=
  ps.flatMap fun
    | plain text => text
    | found value lexeme => f value lexeme

/-- Plain text gathered in reverse, as a piece unless there is none. -/
def ofSeen (seen : List Char) : List (Piece α) :=
  if seen.isEmpty then [] else [plain seen.reverse]

theorem flatten_ofSeen (seen : List Char) :
    (ofSeen seen : List (Piece α)).flatMap text = seen.reverse := by
  cases seen <;> simp [ofSeen, text]

/-- Each piece with the byte positions of its start and end, the first starting at `start`. -/
def located (start : Nat) : List (Piece α) → List (Piece α × Nat × Nat)
  | [] => []
  | p :: ps => (p, start, start + size p.text) :: located (start + size p.text) ps

end Piece

namespace Recogniser

variable {α : Type}

/-- The pieces of a text, where `seen` holds in reverse the plain text right before it. -/
def piecesFrom (r : Recogniser α) (seen : List Char) : List Char → List (Piece α)
  | [] => Piece.ofSeen seen
  | c :: s =>
    match _h : r.read (c :: s) with
    | some (a, front, rest) => Piece.ofSeen seen ++ .found a front :: r.piecesFrom [] rest
    | none => r.piecesFrom (c :: seen) s
termination_by s => s.length
decreasing_by
  · exact r.length_lt _h
  · exact Nat.lt_succ_self _

/-- The pieces of a text. -/
def pieces (r : Recogniser α) (s : List Char) : List (Piece α) := r.piecesFrom [] s

theorem pieces_cons_some (r : Recogniser α) {seen s front rest : List Char} {c : Char} {a : α}
    (h : r.read (c :: s) = some (a, front, rest)) :
    r.piecesFrom seen (c :: s) = Piece.ofSeen seen ++ .found a front :: r.pieces rest := by
  rw [piecesFrom]
  split
  · next h' => rw [h] at h'; obtain ⟨rfl, rfl, rfl⟩ := h'; rfl
  · next h' => rw [h] at h'; exact absurd h' nofun

theorem pieces_cons_none (r : Recogniser α) {seen s : List Char} {c : Char}
    (h : r.read (c :: s) = none) :
    r.piecesFrom seen (c :: s) = r.piecesFrom (c :: seen) s := by
  rw [piecesFrom]
  split
  · next h' => rw [h] at h'; exact absurd h' nofun
  · rfl

theorem flatten_piecesFrom (r : Recogniser α) (seen s : List Char) :
    (r.piecesFrom seen s).flatMap Piece.text = seen.reverse ++ s := by
  fun_induction piecesFrom r seen s with
  | case1 seen => simp [Piece.flatten_ofSeen]
  | case2 seen c s a front rest h ih => simp [Piece.flatten_ofSeen, ih, Piece.text, r.faithful h]
  | case3 seen c s h ih => simp [ih]

/-- The pieces of a text make up the text. -/
theorem flatten_pieces (r : Recogniser α) (s : List Char) :
    (r.pieces s).flatMap Piece.text = s := flatten_piecesFrom r [] s

/-- The text with every construct that `r` finds replaced. -/
def replace (r : Recogniser α) (f : α → List Char → List Char) (s : List Char) : List Char :=
  Piece.splice f (r.pieces s)

/-- Every construct that `r` finds, with the byte positions of its start and end. -/
def findAll (r : Recogniser α) (s : List Char) : List (α × Nat × Nat) :=
  (Piece.located 0 (r.pieces s)).filterMap fun
    | (.found value _, start, stop) => some (value, start, stop)
    | (.plain _, _) => none

end Recogniser

end Stencil.Text
