import Stencil.Data.Context
import Stencil.Proofs.Legible

/-!
# Clean templates and clean data

A template is clean when its braces are all in its tags, and no operand has an opening brace. Data is
clean when its keys are paths and its strings have no braces; what is put in place of a placeholder
has no braces then.

* `Template.legible_of_isClean`: the pieces of a clean template are legible.
* `Value.braceless_display`: clean scalars are written without braces.
* `Context.isClean_merged`: the merged view of a clean context is clean.
-/

namespace Stencil

open Text Tag

variable {s t : List Char}

/-- No character of a braceless text is a brace. -/
theorem braceless_iff : braceless s = true ↔ ∀ c ∈ s, c ≠ '{' ∧ c ≠ '}' := by
  simp only [braceless, Bool.and_eq_true, Bool.not_eq_true', List.contains_eq_mem,
    decide_eq_false_iff_not]
  constructor
  · rintro ⟨hopen, hclose⟩ c hc
    exact ⟨fun he => hopen (he ▸ hc), fun he => hclose (he ▸ hc)⟩
  · intro h
    exact ⟨fun hm => (h _ hm).1 rfl, fun hm => (h _ hm).2 rfl⟩

/-! ### Templates -/

namespace Text.Piece

/-- What a piece is as a token. -/
def lexeme : Piece Tag → Lexeme
  | plain text => .plain (.ofList text)
  | found tag _ => .tag tag

/-- The tokens of located pieces are those of the pieces, in order. -/
theorem map_lexeme_located (start : Nat) (ps : Pieces) :
    ((located start ps).map Token.ofPiece).map Token.lexeme = ps.map lexeme := by
  induction ps generalizing start with
  | nil => rfl
  | cons p ps ih =>
    rw [located, List.map_cons, List.map_cons, ih, List.map_cons]
    cases p <;> rfl

/-- Each token of a template is one of its pieces. -/
theorem exists_of_mem_located {ps : Pieces} {token : Token} {start : Nat}
    (htoken : token ∈ (located start ps).map Token.ofPiece) : ∃ p ∈ ps, p.lexeme = token.lexeme := by
  have hmem : token.lexeme ∈ ps.map lexeme := by
    rw [← map_lexeme_located start]
    exact List.mem_map_of_mem htoken
  exact List.mem_map.1 hmem

end Text.Piece

/-- A piece that is a tag as a token is that tag. -/
theorem tag?_of_lexeme {p : Piece Tag} {tag : Tag} (h : p.lexeme = .tag tag) : p.tag? = some tag := by
  cases p with
  | plain text => cases h
  | found tag' lexeme => rw [Lexeme.tag.inj h]; rfl

/-- Nothing but tags has braces, and operands have no opening brace. -/
def Lexeme.isClean : Lexeme → Bool
  | plain text => braceless text.toList
  | tag t => t.plainOperand

/-- Each token of the template is clean. -/
def Template.isClean (template : String) : Bool :=
  (Token.ofSource template).all (·.lexeme.isClean)

/-- The tokens of a template are its pieces, in order. -/
theorem map_lexeme_ofSource (template : String) : (Token.ofSource template).map Token.lexeme =
    (recogniser.pieces template.toList).map Piece.lexeme := Piece.map_lexeme_located 0 _

/-- Each piece of a template is one of its tokens. -/
theorem exists_token_of_mem {template : String} {p : Piece Tag}
    (hp : p ∈ recogniser.pieces template.toList) :
    ∃ token ∈ Token.ofSource template, token.lexeme = p.lexeme := by
  have hmem : p.lexeme ∈ (Token.ofSource template).map Token.lexeme := by
    rw [map_lexeme_ofSource]
    exact List.mem_map_of_mem hp
  exact List.mem_map.1 hmem

/-- Each token of a template is one of its pieces. -/
theorem exists_piece_of_mem {template : String} {token : Token}
    (htoken : token ∈ Token.ofSource template) :
    ∃ p ∈ recogniser.pieces template.toList, p.lexeme = token.lexeme :=
  Piece.exists_of_mem_located htoken

/-- Each piece of a clean template is clean. -/
theorem Template.isClean_of_mem {template : String} (h : Template.isClean template = true)
    {p : Piece Tag} (hp : p ∈ recogniser.pieces template.toList) : p.lexeme.isClean = true := by
  obtain ⟨token, htoken, he⟩ := exists_token_of_mem hp
  rw [← he]
  exact List.all_eq_true.1 h token htoken

/-- **Clean pieces are legible.** -/
theorem legible_of_isClean {own : Pieces} (hgenuine : Genuine own)
    (hclean : ∀ p ∈ own, p.lexeme.isClean = true) : Legible (Stock own) := by
  refine legible_of_settled hgenuine fun p hp => ?_
  have hp' := hclean p hp
  cases p with
  | plain text =>
    rw [Piece.lexeme, Lexeme.isClean, String.toList_ofList] at hp'
    exact settled_of_not_mem fun hm => (braceless_iff.1 hp' _ hm).1 rfl
  | found tag lexeme =>
    obtain ⟨s, rest, hread⟩ := hgenuine _ _ hp
    exact settled_tail_of_read hread (not_infix_of_plainOperand hp')

/-- **The pieces of a clean template are legible.** -/
theorem Template.legible_of_isClean {template : String} (h : Template.isClean template = true) :
    Legible (Stock (recogniser.pieces template.toList)) :=
  Stencil.legible_of_isClean (genuine_pieces _) fun _ hp => Template.isClean_of_mem h hp

/-! ### Numbers -/

namespace Number

theorem isDigit_of_mem_repr {n : Nat} {c : Char} (h : c ∈ n.repr.toList) : c.isDigit = true := by
  rw [Nat.toList_repr] at h
  exact Nat.isDigit_of_mem_toDigits (by decide) (by decide) h

theorem isDigit_of_mem_replicate {n : Nat} {c : Char} (h : c ∈ List.replicate n '0') :
    c.isDigit = true := by
  rw [(List.mem_replicate.1 h).2]
  decide

/-- A number in positional notation has digits and perhaps a point, and nothing else. -/
theorem mem_positional {digits : Nat} {x : Int} {c : Char} (h : c ∈ positional digits x) :
    c.isDigit = true ∨ c = '.' := by
  -- the point is behind all digits, among them or before them
  rw [positional] at h
  split at h
  · rcases List.mem_append.1 h with h | h
    · exact .inl (isDigit_of_mem_repr h)
    · exact .inl (isDigit_of_mem_replicate h)
  · split at h
    · rcases List.mem_append.1 h with h | h
      · exact .inl (isDigit_of_mem_repr (List.mem_of_mem_take h))
      · rcases List.mem_cons.1 h with rfl | h
        · exact .inr rfl
        · exact .inl (isDigit_of_mem_repr (List.mem_of_mem_drop h))
    · rcases List.mem_append.1 h with h | h
      · rcases List.mem_cons.1 h with rfl | h
        · exact .inl (by decide)
        · rcases List.mem_cons.1 h with rfl | h
          · exact .inr rfl
          · exact .inl (isDigit_of_mem_replicate h)
      · exact .inl (isDigit_of_mem_repr h)

/-- A number in positional notation has no braces. -/
theorem braceless_positional (digits : Nat) (x : Int) : braceless (positional digits x) = true := by
  refine braceless_iff.2 fun c hc => ?_
  rcases mem_positional hc with h | rfl
  · exact ⟨fun he => absurd (he ▸ h) (by decide), fun he => absurd (he ▸ h) (by decide)⟩
  · exact ⟨by decide, by decide⟩

/-- No number is written with braces, be it finite or not. -/
theorem braceless_text (x : Number) : braceless x.text.toList = true := by
  cases x with
  | nan => decide
  | infinite negative => cases negative <;> decide
  | finite negative m e h =>
    have hbody : braceless (if m = 0 then ['0'] else
        positional (dropZeros 17 (shortest m e).1 (shortest m e).2).1
          (dropZeros 17 (shortest m e).1 (shortest m e).2).2) = true := by
      split
      · decide
      · exact braceless_positional _ _
    rw [text, String.toList_ofList]
    cases negative with
    | false => exact hbody
    | true =>
      refine braceless_iff.2 fun c hc => ?_
      rcases List.mem_cons.1 hc with rfl | hc
      · exact ⟨by decide, by decide⟩
      · exact braceless_iff.1 hbody c hc

end Number

/-! ### Values -/

namespace Value

mutual

/-- Every key in the value is a path, and no string in it has a brace. -/
def isClean : Value → Bool
  | string s => braceless s.toList
  | sequence items => areCleanItems items
  | mapping fields => areCleanFields fields
  | _ => true

/-- Every item of a sequence is clean. -/
def areCleanItems : List Value → Bool
  | [] => true
  | v :: items => isClean v && areCleanItems items

/-- Every key of a mapping is a path, and every value is clean. -/
def areCleanFields : List (String × Value) → Bool
  | [] => true
  | (key, v) :: fields => isPath key.toList && isClean v && areCleanFields fields

end

/-- Clean items are clean one by one. -/
theorem areCleanItems_iff {items : List Value} :
    areCleanItems items = true ↔ ∀ v ∈ items, v.isClean = true := by
  induction items with
  | nil => simp [areCleanItems]
  | cons v items ih => rw [areCleanItems, Bool.and_eq_true, ih, List.forall_mem_cons]

/-- Clean fields are clean one by one. -/
theorem areCleanFields_iff {fields : Mapping} :
    areCleanFields fields = true ↔
      ∀ entry ∈ fields, isPath entry.1.toList = true ∧ entry.2.isClean = true := by
  induction fields with
  | nil => simp [areCleanFields]
  | cons entry fields ih =>
    rw [areCleanFields, Bool.and_eq_true, Bool.and_eq_true, ih, List.forall_mem_cons]

/-- The rows of a clean value are clean. -/
theorem isClean_of_mem_rows {v row : Value} (hv : v.isClean = true) (h : row ∈ v.rows) :
    row.isClean = true := by
  cases v with
  | sequence items => exact areCleanItems_iff.1 hv row h
  | _ => rw [List.mem_singleton.1 h]; exact hv

/-- **A clean scalar is written without braces.** -/
theorem braceless_display {v : Value} (hv : v.isClean = true) (hscalar : v.isScalar = true) :
    braceless v.display.toList = true := by
  cases v with
  | null => decide
  | bool b => cases b <;> decide
  | number x =>
    rw [display]
    split
    · decide
    · exact x.braceless_text
  | string s => exact hv
  | sequence items => cases hscalar
  | mapping fields => cases hscalar

end Value

/-! ### Contexts -/

/-- What is found after an entry was put in is that entry, or was there before. -/
theorem Fields.mem_insert {α : Type} {m : Fields α} {key : String} {value : α} {p : String × α}
    (h : p ∈ insert m key value) : p = (key, value) ∨ p ∈ m := by
  induction m with
  | nil => exact .inl (List.mem_singleton.1 h)
  | cons q m ih =>
    rw [insert] at h
    split at h
    · exact List.mem_cons.1 h
    · split at h
      · rcases List.mem_cons.1 h with h | h
        · exact .inl h
        · exact .inr (List.mem_cons_of_mem _ h)
      · rcases List.mem_cons.1 h with h | h
        · exact .inr (h ▸ List.mem_cons_self)
        · exact (ih h).imp_right (List.mem_cons_of_mem _)

/-- The entries of a merged collection come from one of the two. -/
theorem Fields.mem_merge {α : Type} {m other : Fields α} {p : String × α}
    (h : p ∈ merge m other) : p ∈ m ∨ p ∈ other := by
  induction other generalizing m with
  | nil => exact .inl h
  | cons q other ih =>
    rcases ih h with h | h
    · rcases mem_insert h with h | h
      · exact .inr (List.mem_cons.2 (.inl h))
      · exact .inl h
    · exact .inr (List.mem_cons_of_mem _ h)

/-- What is found under a name is the entry of that name. -/
theorem Fields.mem_of_get? {α : Type} {m : Fields α} {key : String} {value : α}
    (h : m.get? key = some value) : (key, value) ∈ m := by
  induction m with
  | nil => cases h
  | cons p m ih =>
    obtain ⟨k, v⟩ := p
    rw [get?_cons] at h
    split at h
    · next hk =>
      subst hk
      exact List.mem_cons.2 (.inl (by rw [Option.some.inj h]))
    · exact List.mem_cons_of_mem _ (ih h)

namespace Context

/-- Every mapping of the context is clean. -/
def isClean (c : Context) : Bool := c.entries.all Value.areCleanFields

/-- Each entry of the merged view is an entry of one of the mappings. -/
theorem mem_merged {c : Context} {p : String × Value} (h : p ∈ c.merged) :
    ∃ m ∈ c.entries, p ∈ m := by
  obtain ⟨entries⟩ := c
  cases entries with
  | nil => exact absurd h List.not_mem_nil
  | cons first rest =>
    suffices hfold : ∀ {m : Mapping}, p ∈ rest.foldl Fields.merge m → p ∈ m ∨ ∃ m ∈ rest, p ∈ m by
      rcases hfold h with h | ⟨m, hm, h⟩
      · exact ⟨first, List.mem_cons_self, h⟩
      · exact ⟨m, List.mem_cons_of_mem _ hm, h⟩
    clear h
    induction rest with
    | nil => exact fun h => .inl h
    | cons q rest ih =>
      intro m h
      rcases ih h with h | ⟨m', hm', h⟩
      · rcases Fields.mem_merge h with h | h
        · exact .inl h
        · exact .inr ⟨q, List.mem_cons_self, h⟩
      · exact .inr ⟨m', List.mem_cons_of_mem _ hm', h⟩

/-- **The merged view of a clean context is clean.** -/
theorem isClean_merged {c : Context} (h : c.isClean = true) :
    Value.areCleanFields c.merged = true := by
  refine Value.areCleanFields_iff.2 fun entry hentry => ?_
  obtain ⟨m, hm, hentry⟩ := mem_merged hentry
  exact Value.areCleanFields_iff.1 (List.all_eq_true.1 h m hm) entry hentry

end Context

end Stencil
