import Stencil.Proofs.Offers

/-!
# Which value goes where

The entries of a context fill a template one after the other, each from the text that the entries before
it left. What comes of it can be said without them: the first placeholder of a key shows the scalar of
the last entry that has one for it, the second placeholder that of the last but one, and so on, and once
the entries are used up the placeholders of the key stay as they are.

* `allotted`: the text that this makes of a template.
* `join_puts`: a list of fills gives each placeholder its own text.
* `fillAll_eq_allotted`: what a context makes of a clean template.
-/

namespace Stencil

open Text Tag Pieces

variable {texts : String → List String} {seen s t front rest : List Char} {path : String}
  {before : List String} {ps : List (Piece String)}

/-- **Each placeholder with its own text.** Behind placeholders of the paths in `before`, the first
placeholder of a path shows the first text of the path that these do not show. A placeholder for which
no text is left stays as it is, and so does everything else. -/
def allotted (texts : String → List String) (before : List String) : List (Piece String) → List Char
  | [] => []
  | .plain text :: ps => text ++ allotted texts before ps
  | .found path lexeme :: ps =>
    ((texts path)[before.count path]?.map String.toList).getD lexeme ++
      allotted texts (path :: before) ps

/-! ### Scans -/

theorem allotted_ofSeen (seen : List Char) (ps : List (Piece String)) :
    allotted texts before (Piece.ofSeen seen ++ ps) = seen.reverse ++ allotted texts before ps := by
  cases seen with
  | nil => rfl
  | cons c seen => rfl

/-- What was gathered before stays. -/
theorem allotted_piecesFrom (r : Recogniser String) (seen s : List Char) :
    allotted texts before (r.piecesFrom seen s) =
      seen.reverse ++ allotted texts before (r.pieces s) := by
  -- the text gathered so far is copied, wherever the scan goes on
  induction s generalizing seen with
  | nil =>
    have hseen : allotted texts before (Piece.ofSeen seen ++ []) =
        seen.reverse ++ allotted texts before [] := allotted_ofSeen seen []
    rw [List.append_nil] at hseen
    simpa [Recogniser.pieces, Recogniser.piecesFrom, Piece.ofSeen] using hseen
  | cons c s ih =>
    cases h : r.read (c :: s) with
    | none =>
      rw [Recogniser.pieces, r.pieces_cons_none h, r.pieces_cons_none h, ih, ih]
      simp
    | some x =>
      obtain ⟨path, front, rest⟩ := x
      rw [Recogniser.pieces, r.pieces_cons_some h, r.pieces_cons_some h, allotted_ofSeen,
        allotted_ofSeen]
      rfl

/-- A placeholder is allotted the text that its place among those of its path gives. -/
theorem allotted_of_read {r : Recogniser String} (h : r.read s = some (path, front, rest)) :
    allotted texts before (r.pieces s) =
      ((texts path)[before.count path]?.map String.toList).getD front ++
        allotted texts (path :: before) (r.pieces rest) := by
  cases s with
  | nil =>
    rw [r.read_nil] at h
    cases h
  | cons c s =>
    rw [Recogniser.pieces, r.pieces_cons_some h]
    rfl

/-- A text without placeholders stays. -/
theorem allotted_append_of_silent {r : Recogniser String} (h : Silent r.read s t) :
    allotted texts before (r.pieces (s ++ t)) = s ++ allotted texts before (r.pieces t) := by
  induction s with
  | nil => rfl
  | cons c s ih =>
    obtain ⟨hc, hs⟩ := silent_cons.1 h
    rw [List.cons_append, Recogniser.pieces, r.pieces_cons_none hc, allotted_piecesFrom, ih hs]
    rfl

/-! ### Fills -/

/-- **A list of fills gives each placeholder its own text.** What is left of the offers to a path is
behind those that the placeholders in front have taken. -/
theorem join_puts {ps : Pieces} {fills : List (String × String)} (h : InPlace ps)
    (hoffers : ∀ path, offers fills path = (texts path).drop (before.count path)) :
    join (puts fills ps) = allotted texts before (placeholderPath.pieces (join ps)) := by
  -- the offers that are left, and the placeholders in front that have taken the others, change
  -- together
  induction ps generalizing fills before with
  | nil =>
    have hnone : ∀ path, ¬ Reads ([] : Pieces) path := by simp [Reads]
    rw [puts_of_not_reads hnone]
    simp [Recogniser.pieces, Recogniser.piecesFrom, Piece.ofSeen, allotted]
  | cons p ps ih =>
    rw [join_cons]
    rcases h.1.placeholder_or_silent with ⟨path, lexeme, rfl, hread⟩ | ⟨hother, hsilent⟩
    · have hrest : ∀ path', offers (withoutOffer path fills) path' =
          (texts path').drop ((path :: before).count path') := by
        intro path'
        rw [offers_withoutOffer, hoffers, List.count_cons]
        by_cases hpath : path' = path
        · rw [if_pos hpath, List.tail_drop, if_pos (by simp [hpath])]
        · rw [if_neg hpath, if_neg (by simpa using Ne.symm hpath), Nat.add_zero]
      have hfirst : (offers fills path).head? = (texts path)[before.count path]? := by
        rw [hoffers, List.head?_drop]
      rw [puts_cons_placeholder rfl, join_cons, ih h.2 hrest, hfirst, Piece.text,
        allotted_of_read hread]
      cases (texts path)[before.count path]? <;> rfl
    · have hnone : ∀ path, p.tag? ≠ some (.placeholder path) := by
        intro path htag
        rw [isPlaceholder, htag] at hother
        cases hother
      rw [puts_cons hnone, join_cons, ih h.2 hoffers, allotted_append_of_silent hsilent]

/-- **Which value goes where.** Filling a clean template from a clean context gives the placeholders of
each key, from the first one on, the scalars that the entries bind the key to, from the last entry on. -/
theorem fillAll_eq_allotted {template : String} {context : Context}
    (htemplate : Template.isClean template = true) (hcontext : context.isClean = true)
    (hsorted : context.IsSorted) :
    Placeholder.fillAll template.toList context =
      allotted (fun key => (context.scalarsOf key).map Value.display) []
        (placeholderPath.pieces template.toList) := by
  have hlegible := Template.legible_of_isClean htemplate
  have hstock := stock_pieces template.toList
  have hoffers : ∀ key, offers context.fills key =
      ((context.scalarsOf key).map Value.display).drop (([] : List String).count key) :=
    fun key => offers_fills hsorted key
  have hputs := join_puts (hlegible.inPlace hstock) hoffers
  rw [toList_eq_join template, (hlegible.fillAll_join hcontext hstock).1, fillAll_eq_puts]
  exact hputs

/-- A key with three placeholders and two scalars, and a key with one of each. -/
theorem fillAll_repeated_key :
    let template := "\x7b\x7ba\x7d\x7d-\x7b\x7bb\x7d\x7d-\x7b\x7ba\x7d\x7d-\x7b\x7ba\x7d\x7d"
    let context : Context := ⟨[[("a", .string "1"), ("b", .string "x")], [("a", .string "2")]]⟩
    String.ofList (Placeholder.fillAll template.toList context) = "2-x-1-\x7b\x7ba\x7d\x7d" := by
  intro template context
  rw [fillAll_eq_allotted (by decide +kernel) (by decide +kernel) (by decide +kernel)]
  decide +kernel

end Stencil
