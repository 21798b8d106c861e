import Stencil.Proofs.Passes

/-!
# Tokens and what the passes find

One scan cuts a template into tokens, and the passes look for placeholders, loops, conditionals and
closing tags with scans of their own. All of them find the same tags at the same byte positions, as
long as no operand has two opening braces in a row: with two of them, a tag could begin inside another.

* `Token.placeholder?`, `Spans`: placeholders and blocks among the tokens.
* `findFrom_join`: a scan for placeholders finds the placeholders among the tokens.
* `mem_ofSource_iff`: a token with one spelling stands wherever that spelling does.
* `spans_of_mem_findAll`: a scan for blocks finds blocks of tokens.
* `tokens_agree_with_passes`: all scans find the same tags.
-/

namespace Stencil

open Text Tag Pieces

variable {text : String} {ps a b body : Pieces} {tag : Tag} {sign s t : List Char}
  {start stop n : Nat}

/-- A token that is a placeholder, as its path with its byte positions. -/
def Token.placeholder? (token : Token) : Option (String × Nat × Nat) :=
  match token.lexeme with
  | .tag (.placeholder path) => some (path, token.start, token.stop)
  | _ => none

/-- **Where a block of tokens stands.** It begins with its opening tag, and ends with the first closing
tag behind that. -/
def Spans (opening closing : Tag) (tokens : List Token) (start stop : Nat) : Prop :=
  ∃ before o between c after, tokens = before ++ o :: (between ++ c :: after) ∧
    o.lexeme = .tag opening ∧ o.start = start ∧ c.lexeme = .tag closing ∧ c.stop = stop ∧
    ∀ token ∈ between, token.lexeme ≠ .tag closing

/-! ### Tokens and pieces -/

theorem mem_ofSource_tag : ⟨.tag tag, start, stop⟩ ∈ Token.ofSource text ↔ ∃ lexeme a b,
    recogniser.pieces text.toList = a ++ .found tag lexeme :: b ∧ start = size (join a) ∧
      stop = size (join a) + size lexeme := by
  rw [Token.ofSource, List.mem_map]
  constructor
  · rintro ⟨⟨p, start', stop'⟩, hmem, he⟩
    cases p with
    | plain text => cases he
    | found tag' lexeme =>
      cases he
      obtain ⟨a, b, hpieces, rfl, rfl⟩ := Piece.mem_located_iff.1 hmem
      rw [Nat.zero_add]
      exact ⟨lexeme, a, b, hpieces, rfl, rfl⟩
  · rintro ⟨lexeme, a, b, hpieces, rfl, rfl⟩
    refine ⟨(.found tag lexeme, _, _), Piece.mem_located_iff.2 ⟨a, b, hpieces, ?_, rfl⟩, rfl⟩
    exact (Nat.zero_add _).symm

/-- The pieces of a text are in place if no token has an operand with two opening braces in a row. -/
theorem inPlace_of_tokens (h : ∀ c start stop, ⟨.tag (.ifOpen c), start, stop⟩ ∈ Token.ofSource text →
    ¬ Tag.opening <:+: operandText c) : InPlace (recogniser.pieces text.toList) := by
  refine inPlace_pieces _ fun c lexeme hmem => ?_
  obtain ⟨a, b, hpieces⟩ := List.append_of_mem hmem
  exact h c _ _ (mem_ofSource_tag.2 ⟨lexeme, a, b, hpieces, rfl, rfl⟩)

/-! ### Placeholders -/

theorem placeholder?_ofPiece {p : Piece Tag} (h : isPlaceholder p = false) (span : Nat × Nat) :
    (Token.ofPiece (p, span)).placeholder? = none := by
  cases p with
  | plain text => rfl
  | found tag lexeme =>
    cases tag with
    | placeholder path => cases h
    | _ => rfl

theorem findFrom_join (h : InPlace ps) (n : Nat) : placeholderPath.findFrom n (join ps) =
    ((Piece.located n ps).map Token.ofPiece).filterMap Token.placeholder? := by
  induction ps generalizing n with
  | nil => exact Recogniser.findFrom_nil _ _
  | cons p ps ih =>
    rw [join_cons, Piece.located, List.map_cons]
    rcases h.1.placeholder_or_silent with ⟨path, lexeme, rfl, hread⟩ | ⟨hother, hsilent⟩
    · rw [Piece.text, Recogniser.findFrom_of_read n hread, ih h.2]
      rfl
    · rw [Recogniser.findFrom_append_of_silent n hsilent, ih h.2,
        List.filterMap_cons_none (placeholder?_ofPiece hother _)]

/-! ### Tags with one spelling -/

/-- A tag with one spelling is a token wherever that spelling stands, and nowhere else. -/
theorem mem_ofSource_iff (h : InPlace (recogniser.pieces text.toList)) (hsign : Sign tag sign) :
    ⟨.tag tag, start, stop⟩ ∈ Token.ofSource text ↔
      ∃ s t, text.toList = s ++ (sign ++ t) ∧ start = size s ∧ stop = size s + size sign := by
  have htext := toList_eq_join text
  rw [mem_ofSource_tag]
  constructor
  · rintro ⟨lexeme, a, b, hpieces, rfl, rfl⟩
    rw [hpieces] at h htext
    obtain ⟨rfl, -⟩ := hsign.1 (h.of_append.1.read rfl)
    rw [join_append, join_cons] at htext
    exact ⟨join a, join b, htext, rfl, rfl⟩
  · rintro ⟨s, t, hs, rfl, rfl⟩
    obtain ⟨a, b, hpieces, rfl, rfl⟩ := h.cut_of_read (htext.symm.trans hs) (hsign.2 ⟨rfl, rfl⟩)
    exact ⟨sign, a, b, hpieces, rfl, rfl⟩

/-! ### Blocks -/

theorem ne_of_mem_located (hbody : ∀ q ∈ body, q.tag? ≠ some tag) :
    ∀ token ∈ (Piece.located n body).map Token.ofPiece, token.lexeme ≠ .tag tag := by
  intro token htoken htag
  obtain ⟨q, hq, hlexeme⟩ := Piece.exists_of_mem_located htoken
  exact hbody q hq (tag?_of_lexeme (hlexeme.trans htag))

theorem spans_located {closing : Tag} (hbody : ∀ q ∈ body, q.tag? ≠ some closing) (n : Nat)
    (opening : Tag) (a b : Pieces) (front sign : List Char) : Spans opening closing
      ((Piece.located n (a ++ .found opening front :: (body ++ .found closing sign :: b))).map
        Token.ofPiece)
      (n + size (join a)) (n + size (join a) + size (front ++ (join body ++ sign))) := by
  rw [Piece.located_append, Piece.located, Piece.located_append, Piece.located, List.map_append,
    List.map_cons, List.map_append, List.map_cons]
  refine ⟨_, _, _, _, _, rfl, rfl, rfl, rfl, ?_, ne_of_mem_located hbody⟩
  simp [Token.ofPiece, Piece.text, join, Nat.add_assoc]

variable {α γ : Type} {k : BlockKind α} {blocks : Recogniser γ} {mk : α → List Char → γ} {y : γ}

/-- What a scan for blocks finds is a block of tokens. -/
theorem spans_of_mem_findAll (h : InPlace (recogniser.pieces text.toList))
    (hr : ReadsBlocks k blocks mk sign) (hfound : (y, start, stop) ∈ blocks.findAll text.toList) :
    ∃ x s, y = mk x s ∧ Spans (k.opening x) k.closing (Token.ofSource text) start stop := by
  obtain ⟨s, lexeme, rest, htext, hread, rfl, rfl⟩ := Recogniser.readsAt_of_mem_findAll hfound
  obtain ⟨x, a, front, body, b, rfl, rfl, hpieces, rfl, -, hbody⟩ :=
    h.cut_of_block hr ((toList_eq_join text).symm.trans htext) hread
  have hspans := spans_located hbody 0 (k.opening x) a b front sign
  rw [Nat.zero_add, ← hpieces] at hspans
  exact ⟨x, join body, rfl, hspans⟩

/-! ### All scans -/

/-- **All scans find the same tags.** Where no operand has two opening braces in a row, the placeholders
among the tokens are what the scan for placeholders finds; closing and middle tags are tokens wherever
their text stands, and only there; and each loop or conditional that is found begins with the token
that opens it, and ends with the first closing token behind that. -/
theorem tokens_agree_with_passes
    (h : ∀ c start stop, ⟨.tag (.ifOpen c), start, stop⟩ ∈ Token.ofSource text →
      ¬ Tag.opening <:+: operandText c) :
    (Token.ofSource text).filterMap Token.placeholder? = placeholderPath.findAll text.toList ∧
    (∀ tag ∈ [Tag.eachClose, .ifClose, .otherwise], ∀ start stop,
      ⟨.tag tag, start, stop⟩ ∈ Token.ofSource text ↔
        ∃ s t, text.toList = s ++ (tag.text.toList ++ t) ∧ start = size s ∧
          stop = size s + size tag.text.toList) ∧
    (∀ block start stop, (block, start, stop) ∈ LoopBlock.recogniser.findAll text.toList →
      Spans (.eachOpen block.key) .eachClose (Token.ofSource text) start stop) ∧
    (∀ block start stop, (block, start, stop) ∈ ConditionalBlock.recogniser.findAll text.toList →
      Spans (.ifOpen block.condition) .ifClose (Token.ofSource text) start stop) := by
  have hplace := inPlace_of_tokens h
  have hsigns : ∀ tag ∈ [Tag.eachClose, .ifClose, .otherwise], Sign tag tag.text.toList := by
    simp only [List.forall_mem_cons, Tag.text, String.toList_ofList]
    exact ⟨sign_eachClose, sign_ifClose, sign_otherwise, List.forall_mem_nil _⟩
  refine ⟨?_, fun tag htag start stop => mem_ofSource_iff hplace (hsigns tag htag), ?_, ?_⟩
  · rw [Recogniser.findAll_eq_findFrom, toList_eq_join text, findFrom_join hplace 0]
    rfl
  · intro block start stop hfound
    obtain ⟨key, body, rfl, hspans⟩ := spans_of_mem_findAll hplace readsBlocks_loop hfound
    exact hspans
  · intro block start stop hfound
    obtain ⟨c, body, rfl, hspans⟩ := spans_of_mem_findAll hplace readsBlocks_conditional hfound
    exact hspans

/-- With two opening braces in a row in an operand, a placeholder is found inside the opening tag. -/
example :
    (Token.ofSource "\x7b\x7b#if a == \x7b\x7bb\x7d\x7d").filterMap Token.placeholder? = [] ∧
    placeholderPath.findAll "\x7b\x7b#if a == \x7b\x7bb\x7d\x7d".toList = [("b", 11, 16)] := by
  decide +kernel

/-- A conditional among stray braces, one of them in its operand. -/
theorem tokens_agree_among_stray_braces :
    placeholderPath.findAll
        "\x7b\x7b\x7b#if b == \"\x7b\"\x7d\x7d\x7b\x7ba\x7d\x7d\x7d\x7b\x7b/if\x7d\x7d".toList =
      [("a", 17, 22)] ∧
    ⟨.tag .ifClose, 23, 30⟩ ∈ Token.ofSource
      "\x7b\x7b\x7b#if b == \"\x7b\"\x7d\x7d\x7b\x7ba\x7d\x7d\x7d\x7b\x7b/if\x7d\x7d" ∧
    Spans (.ifOpen ⟨"b", some ⟨.equal, "\x7b"⟩⟩) .ifClose (Token.ofSource
      "\x7b\x7b\x7b#if b == \"\x7b\"\x7d\x7d\x7b\x7ba\x7d\x7d\x7d\x7b\x7b/if\x7d\x7d") 1 30 := by
  generalize htext :
    "\x7b\x7b\x7b#if b == \"\x7b\"\x7d\x7d\x7b\x7ba\x7d\x7d\x7d\x7b\x7b/if\x7d\x7d" = text
  have htokens : Token.ofSource text = [⟨.plain "\x7b", 0, 1⟩,
      ⟨.tag (.ifOpen ⟨"b", some ⟨.equal, "\x7b"⟩⟩), 1, 17⟩, ⟨.tag (.placeholder "a"), 17, 22⟩,
      ⟨.plain "\x7d", 22, 23⟩, ⟨.tag .ifClose, 23, 30⟩] := by
    subst htext
    decide +kernel
  have hblock : (⟨"b", some ⟨.equal, "\x7b"⟩⟩, 1, 30) ∈
      (ConditionalBlock.recogniser.findAll text.toList).map
        fun (block, span) => (block.condition, span) := by
    subst htext
    decide +kernel
  -- the only operand is a single brace
  have hoperands : ∀ c start stop, ⟨.tag (.ifOpen c), start, stop⟩ ∈ Token.ofSource text →
      ¬ Tag.opening <:+: operandText c := by
    intro c start stop hmem
    rw [htokens] at hmem
    obtain ⟨rfl, -⟩ : c = ⟨"b", some ⟨.equal, "\x7b"⟩⟩ ∧ _ := by simpa using hmem
    decide
  obtain ⟨hplaceholders, hsigns, -, hconditionals⟩ := tokens_agree_with_passes hoperands
  obtain ⟨⟨⟨c, body⟩, start, stop⟩, hfound, hspan⟩ := List.mem_map.1 hblock
  obtain ⟨rfl, rfl, rfl⟩ : c = ⟨"b", some ⟨.equal, "\x7b"⟩⟩ ∧ start = 1 ∧ stop = 30 := by
    simpa using hspan
  refine ⟨?_, (hsigns .ifClose (by decide) 23 30).2 ?_, hconditionals _ _ _ hfound⟩
  · rw [← hplaceholders, htokens]
    rfl
  · subst htext
    exact ⟨"\x7b\x7b\x7b#if b == \"\x7b\"\x7d\x7d\x7b\x7ba\x7d\x7d\x7d".toList, [], rfl, rfl, rfl⟩

end Stencil
