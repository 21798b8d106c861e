import Stencil.Proofs.Clean

/-!
# The cut of a template into tokens

A template is cut into tokens without loss: they stand one behind the other from its first byte to its
last, and plain text between two tags is one token. The cut does not depend on what is around a token,
as no tag looks beyond its closing braces, and plain text in which a tag could be read alone would not
be plain in front of more text either.

* `Merged`: pieces that are not empty, with no plain text behind plain text.
* `ofSource_plain`, `ofSource_tag`: the tokens of the text of one token.
* `Partition`, `partition_ofSource`: the tokens of any template.
-/

namespace Stencil

open Text Tag

variable {α : Type} {s t u : List Char}

/-! ### Pieces -/

namespace Text.Piece

variable {p q : Piece α} {ps a b : List (Piece α)}

/-- **Pieces that cannot be merged.** None is empty, and behind plain text stands a construct. -/
inductive Merged : List (Piece α) → Prop where
  | nil : Merged []
  | last {text : List Char} : text ≠ [] → Merged [.plain text]
  | found {x : α} {lexeme : List Char} {ps : List (Piece α)} :
    lexeme ≠ [] → Merged ps → Merged (.found x lexeme :: ps)
  | plain {text lexeme : List Char} {x : α} {ps : List (Piece α)} :
    text ≠ [] → Merged (.found x lexeme :: ps) → Merged (.plain text :: .found x lexeme :: ps)

/-- A single plain piece has no neighbour. -/
theorem merged_ofSeen (seen : List Char) : Merged (ofSeen seen : List (Piece α)) := by
  cases seen with
  | nil => exact .nil
  | cons c seen => exact .last (by simp)

theorem Merged.ofSeen_append {x : α} {lexeme : List Char} (seen : List Char)
    (h : Merged (.found x lexeme :: ps)) : Merged (ofSeen seen ++ .found x lexeme :: ps) := by
  cases seen with
  | nil => exact h
  | cons c seen => exact .plain (by simp) h

/-- The scan puts no two plain pieces next to each other. -/
theorem merged_piecesFrom (r : Recogniser α) (seen s : List Char) : Merged (r.piecesFrom seen s) := by
  fun_induction Recogniser.piecesFrom r seen s with
  | case1 seen => exact merged_ofSeen seen
  | case2 seen c s x front rest hread ih =>
    have hfound : Merged (.found x front :: r.piecesFrom [] rest) := .found (r.advances hread) ih
    exact hfound.ofSeen_append seen
  | case3 seen c s _ ih => exact ih

theorem merged_pieces (r : Recogniser α) (s : List Char) : Merged (r.pieces s) :=
  merged_piecesFrom r [] s

/-- No piece is empty. -/
theorem Merged.text_ne_nil (h : Merged ps) : ∀ p ∈ ps, p.text ≠ [] := by
  induction h with
  | nil => exact fun p hp => absurd hp List.not_mem_nil
  | last hne =>
    intro p hp
    obtain rfl := List.mem_singleton.1 hp
    exact hne
  | found hne _ ih => exact List.forall_mem_cons.2 ⟨hne, ih⟩
  | plain hne _ ih => exact List.forall_mem_cons.2 ⟨hne, ih⟩

theorem Merged.of_append (h : Merged (a ++ b)) : Merged b := by
  induction a with
  | nil => exact h
  | cons p a ih =>
    refine ih ?_
    rw [List.cons_append] at h
    generalize a ++ b = ps at h ⊢
    cases h with
    | last _ => exact .nil
    | found _ h => exact h
    | plain _ h => exact h

/-- Behind plain text stands a construct. -/
theorem Merged.exists_found {text : List Char} (h : Merged (a ++ .plain text :: q :: b)) :
    ∃ x lexeme, q = .found x lexeme := by
  cases h.of_append with
  | plain _ _ => exact ⟨_, _, rfl⟩

/-- Pieces stand one behind the other. -/
theorem located_joined (n : Nat) (ps : List (Piece α)) :
    (located n ps).map (·.2.1) ++ [n + size (ps.flatMap text)] = n :: (located n ps).map (·.2.2) := by
  induction ps generalizing n with
  | nil => rfl
  | cons p ps ih =>
    have htail := ih (n + size p.text)
    rw [located, List.map_cons, List.map_cons, List.cons_append, ← htail, List.flatMap_cons,
      size_append, Nat.add_assoc]

/-- Pieces stand in order. -/
theorem located_pairwise (n : Nat) (h : ∀ p ∈ ps, p.text ≠ []) :
    (∀ x ∈ located n ps, n ≤ x.2.1) ∧ (located n ps).Pairwise fun x y => x.2.1 < y.2.1 := by
  induction ps generalizing n with
  | nil => exact ⟨fun x hx => absurd hx List.not_mem_nil, .nil⟩
  | cons p ps ih =>
    rw [List.forall_mem_cons] at h
    have hsize := size_pos h.1
    obtain ⟨hle, hpairwise⟩ := ih (n + size p.text) h.2
    rw [located]
    refine ⟨List.forall_mem_cons.2 ⟨Nat.le_refl n, fun x hx => ?_⟩, .cons (fun x hx => ?_) hpairwise⟩
    · have := hle x hx
      omega
    · have := hle x hx
      show n < x.2.1
      omega

end Text.Piece

/-! ### Single tokens -/

/-- **No tag is read inside a silent text**, wherever it is cut. -/
theorem read_eq_none_of_infix (h : Silent recogniser.read s t) (hu : u <:+: s) :
    recogniser.read u = none := by
  obtain ⟨a, b, rfl⟩ := hu
  cases hread : recogniser.read u with
  | none => rfl
  | some x =>
    obtain ⟨tag, front, rest⟩ := x
    have hne : u ++ b ≠ [] := by
      rintro he
      rw [(List.append_eq_nil_iff.1 he).1, recogniser.read_nil] at hread
      cases hread
    -- a tag looks no further than its closing braces
    have hfar := closing_recogniser.steady (rest ++ (b ++ t)) hread
    rw [← List.append_assoc, ← recogniser.faithful hread, ← List.append_assoc,
      h (u ++ b) hne ⟨a, by simp⟩] at hfar
    cases hfar

/-- Silence in front of a text is silence alone. -/
theorem silent_alone (h : Silent recogniser.read s t) : Silent recogniser.read s [] := by
  intro u _ hs
  rw [List.append_nil]
  exact read_eq_none_of_infix h hs.isInfix

/-- A text in which nothing is read is one token. -/
theorem ofSource_plain (hne : s ≠ []) (h : Silent recogniser.read s t) :
    Token.ofSource (.ofList s) = [⟨.plain (.ofList s), 0, size s⟩] := by
  have hpieces : recogniser.pieces s = [.plain s] := by
    rw [recogniser.pieces_of_silent (silent_alone h), Piece.ofSeen, if_neg (by simpa using hne),
      List.reverse_reverse]
  rw [Token.ofSource, String.toList_ofList, hpieces]
  simp [Piece.located, Token.ofPiece, Piece.text]

/-- A tag by itself is one token. -/
theorem ofSource_tag {tag : Tag} {front rest : List Char}
    (h : recogniser.read (front ++ rest) = some (tag, front, rest)) :
    Token.ofSource (.ofList front) = [⟨.tag tag, 0, size front⟩] := by
  have halone := closing_recogniser.steady [] h
  rw [List.append_nil] at halone
  have hpieces : recogniser.pieces front = [.found tag front] := by
    obtain ⟨c, w, rfl⟩ := List.exists_cons_of_ne_nil (recogniser.advances h)
    rw [Recogniser.pieces, recogniser.pieces_cons_some halone]
    simp [Piece.ofSeen, Recogniser.pieces, Recogniser.piecesFrom]
  rw [Token.ofSource, String.toList_ofList, hpieces]
  simp [Piece.located, Token.ofPiece, Piece.text]

/-! ### All tokens -/

/-- **The slice of a text that a token covers**, by its byte positions. -/
def Token.Covers (text : List Char) (token : Token) (slice : List Char) : Prop :=
  ∃ before behind, text = before ++ (slice ++ behind) ∧ token.start = size before ∧
    token.stop = size before + size slice

/-- **A cut into tokens without loss.** -/
structure Partition (text : String) (tokens : List Token) : Prop where
  /-- From the first byte to the last, each token begins where the one before it ends. -/
  joined : tokens.map Token.start ++ [size text.toList] = 0 :: tokens.map Token.stop
  nonempty : ∀ token ∈ tokens, token.start < token.stop
  /-- A token stands for whole characters, and for those only that it carries if it is plain text. It is
  the token of them, whatever is around them. -/
  slices : ∀ token ∈ tokens, ∃ slice, token.Covers text.toList slice ∧
    (∀ plain, token.lexeme = .plain plain → plain.toList = slice) ∧
    Token.ofSource (.ofList slice) = [⟨token.lexeme, 0, size slice⟩]
  /-- No tag is read inside plain text, and none that begins there and goes on behind it. -/
  silent : ∀ token ∈ tokens, ∀ plain, token.lexeme = .plain plain →
    (∀ part, part <:+: plain.toList → recogniser.read part = none) ∧
    ∀ front rest, text.toList = front ++ rest → token.start ≤ size front → size front < token.stop →
      recogniser.read rest = none
  /-- Plain text is not cut. -/
  merged : ∀ before token token' after plain plain', tokens = before ++ token :: token' :: after →
    token.lexeme = .plain plain → token'.lexeme ≠ .plain plain'

@[simp] theorem Token.start_ofPiece (x : Piece Tag × Nat × Nat) : (ofPiece x).start = x.2.1 := by
  rcases x with ⟨_ | _, _⟩ <;> rfl

@[simp] theorem Token.stop_ofPiece (x : Piece Tag × Nat × Nat) : (ofPiece x).stop = x.2.2 := by
  rcases x with ⟨_ | _, _⟩ <;> rfl

/-- **The piece of a template that is a token**: plain text in which no tag is read in front of what
follows, or what is read as a tag there. -/
theorem exists_piece_of_mem_ofSource {text : String} {token : Token} (h : token ∈ Token.ofSource text) :
    ∃ (p : Piece Tag) (before behind : List Char), text.toList = before ++ (p.text ++ behind) ∧
      token = Token.ofPiece (p, size before, size before + size p.text) ∧ p.text ≠ [] ∧
      (∀ s, p = .plain s → Silent recogniser.read s behind) ∧
      ∀ tag front, p = .found tag front →
        recogniser.read (front ++ behind) = some (tag, front, behind) := by
  obtain ⟨⟨p, start, stop⟩, hmem, rfl⟩ := List.mem_map.1 h
  obtain ⟨before, behind, hps, rfl, rfl⟩ := Piece.mem_located_iff.1 hmem
  have hne : p.text ≠ [] := by
    refine (Piece.merged_pieces recogniser text.toList).text_ne_nil p ?_
    rw [hps]
    exact List.mem_append_right before List.mem_cons_self
  have hcut := recogniser.cut_pieces text.toList
  rw [hps] at hcut
  obtain ⟨rest, htext, hrest⟩ := hcut.of_append
  have htext' : text.toList = before.flatMap Piece.text ++ (p.text ++ behind.flatMap Piece.text) := by
    rw [htext, ← hrest.flatten, List.flatMap_cons]
  refine ⟨p, before.flatMap Piece.text, behind.flatMap Piece.text, htext', ?_, hne, ?_, ?_⟩
  · rw [Nat.zero_add]
  · rintro s rfl
    cases hrest with
    | plain hsilent hbehind => rwa [hbehind.flatten]
  · rintro tag front rfl
    cases hrest with
    | found hread hbehind => rwa [hbehind.flatten]

/-- Each token covers a slice, which is read as that token by itself. -/
theorem slice_of_mem_ofSource {text : String} {token : Token} (h : token ∈ Token.ofSource text) :
    token.start < token.stop ∧ ∃ slice, token.Covers text.toList slice ∧
      (∀ plain, token.lexeme = .plain plain → plain.toList = slice) ∧
      Token.ofSource (.ofList slice) = [⟨token.lexeme, 0, size slice⟩] := by
  obtain ⟨p, before, behind, htext, rfl, hne, hsilent, hread⟩ := exists_piece_of_mem_ofSource h
  have hcovers : (Token.ofPiece (p, size before, size before + size p.text)).Covers text.toList p.text :=
    ⟨before, behind, htext, Token.start_ofPiece _, Token.stop_ofPiece _⟩
  rw [Token.start_ofPiece, Token.stop_ofPiece]
  refine ⟨Nat.lt_add_of_pos_right (size_pos hne), p.text, hcovers, ?_⟩
  cases p with
  | plain s =>
    refine ⟨?_, ofSource_plain hne (hsilent s rfl)⟩
    rintro plain ⟨⟩
    exact String.toList_ofList
  | found tag front => exact ⟨nofun, ofSource_tag (hread tag front rfl)⟩

/-- Where a text is cut inside its middle part, what is left begins in that part. -/
theorem exists_middle {before middle behind front rest : List Char}
    (h : before ++ (middle ++ behind) = front ++ rest) (hstart : size before ≤ size front)
    (hstop : size front < size before + size middle) :
    ∃ part, part ≠ [] ∧ part <:+ middle ∧ rest = part ++ behind := by
  rcases List.append_eq_append_iff.1 h with ⟨mid, rfl, hmid⟩ | ⟨mid, rfl, hmid⟩
  · rw [size_append] at hstop
    rcases List.append_eq_append_iff.1 hmid with ⟨more, rfl, -⟩ | ⟨part, rfl, hrest⟩
    · rw [size_append] at hstop
      omega
    · refine ⟨part, ?_, List.suffix_append mid part, hrest⟩
      rintro rfl
      rw [List.append_nil] at hstop
      omega
  · rw [size_append] at hstart hstop
    cases mid with
    | nil =>
      refine ⟨middle, ?_, List.suffix_refl middle, hmid⟩
      rintro rfl
      rw [size_nil] at hstop
      omega
    | cons c mid =>
      have hpos := size_pos (List.cons_ne_nil c mid)
      omega

/-- No tag can be read inside a plain token, with what stands behind it or without. -/
theorem silent_of_mem_ofSource {text plain : String} {token : Token} (h : token ∈ Token.ofSource text)
    (hplain : token.lexeme = .plain plain) :
    (∀ part, part <:+: plain.toList → recogniser.read part = none) ∧
    ∀ front rest, text.toList = front ++ rest → token.start ≤ size front → size front < token.stop →
      recogniser.read rest = none := by
  obtain ⟨p, before, behind, htext, rfl, -, hsilent, -⟩ := exists_piece_of_mem_ofSource h
  rw [Token.start_ofPiece, Token.stop_ofPiece]
  cases p with
  | found tag lexeme => cases hplain
  | plain s =>
    obtain rfl : String.ofList s = plain := Lexeme.plain.inj hplain
    rw [String.toList_ofList]
    refine ⟨fun part hpart => read_eq_none_of_infix (hsilent s rfl) hpart, ?_⟩
    intro front rest hsplit hstart hstop
    rw [htext] at hsplit
    obtain ⟨part, hpart, hsuffix, rfl⟩ := exists_middle hsplit hstart hstop
    exact hsilent s rfl part hpart hsuffix

/-- Each token starts behind the tokens in front of it. -/
theorem pairwise_ofSource (text : String) :
    (Token.ofSource text).Pairwise fun a b => a.start < b.start := by
  have hne := (Piece.merged_pieces recogniser text.toList).text_ne_nil
  unfold Token.ofSource
  rw [List.pairwise_map]
  simpa using (Piece.located_pairwise 0 hne).2

/-- **A template is cut into its tokens without loss.** -/
theorem partition_ofSource (text : String) : Partition text (Token.ofSource text) := by
  refine ⟨?_, fun token h => (slice_of_mem_ofSource h).1, fun token h => (slice_of_mem_ofSource h).2,
    fun token h plain => silent_of_mem_ofSource h, ?_⟩
  · have hjoined := Piece.located_joined 0 (recogniser.pieces text.toList)
    rw [recogniser.flatten_pieces, Nat.zero_add] at hjoined
    unfold Token.ofSource
    simpa [Function.comp_def] using hjoined
  · intro before token token' after plain plain' htokens hplain hplain'
    have hlexemes := map_lexeme_ofSource text
    rw [htokens, List.map_append, List.map_cons, List.map_cons, hplain, hplain'] at hlexemes
    obtain ⟨a, ps, hps, -, hcons⟩ := List.map_eq_append_iff.1 hlexemes.symm
    obtain ⟨p, qs, rfl, hp, hqs⟩ := List.map_eq_cons_iff.1 hcons
    obtain ⟨q, b, rfl, hq, -⟩ := List.map_eq_cons_iff.1 hqs
    -- two pieces of plain text in a row
    have hmerged := Piece.merged_pieces recogniser text.toList
    rw [hps] at hmerged
    cases p with
    | found tag lexeme => cases hp
    | plain u =>
      obtain ⟨tag, lexeme, rfl⟩ := hmerged.exists_found
      cases hq

end Stencil
