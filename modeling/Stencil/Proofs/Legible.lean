import Stencil.Proofs.TagKinds
import Stencil.Template.Token

/-!
# Legible pieces

Rendering moves pieces of a template about and puts texts of the data between them. The passes find
the tags again in the resulting text as long as the pieces are legible: no arrangement of them reads
as a tag anywhere but where one of them is that tag.

* `Legible`: the property of a stock of pieces.
* `legible_of_settled`: no opening brace in a piece is followed by another one or by the end of the
  piece, the first brace of a tag apart.
* `Pieces.InPlace`: the pieces of one text, each where it stands. Those of a template are in place
  (`inPlace_pieces`), and legible pieces are, however they are put together (`Legible.inPlace`).
* `Pieces.InPlace.split?_join`, `Pieces.InPlace.cut_of_read`: a tag is found where its piece is, and
  nowhere else.
-/

namespace Stencil

open Text Tag

/-- The pieces of a template, or what the passes have made of them. -/
abbrev Pieces := List (Piece Tag)

namespace Text.Piece

/-- The tag, if the piece is one. -/
def tag? : Piece Tag → Option Tag
  | plain _ => none
  | found tag _ => some tag

/-- The part of a piece in which no tag should begin. -/
def hidden : Piece Tag → List Char
  | plain text => text
  | found _ lexeme => lexeme.tail

end Text.Piece

namespace Pieces

/-- The text that pieces make up. -/
def join (ps : Pieces) : List Char := ps.flatMap Piece.text

@[simp] theorem join_nil : join [] = [] := rfl

@[simp] theorem join_cons (p : Piece Tag) (ps : Pieces) : join (p :: ps) = p.text ++ join ps :=
  List.flatMap_cons

@[simp] theorem join_append (ps qs : Pieces) : join (ps ++ qs) = join ps ++ join qs :=
  List.flatMap_append

end Pieces

open Pieces

/-- Neither an opening nor a closing brace stands in the text. -/
def braceless (s : List Char) : Bool := !s.contains '{' && !s.contains '}'

/-- **Legibility** of a stock of pieces: whatever pieces of the stock stand behind one of them, it is
read as the tag that it is, and no tag begins inside it. All texts without braces are in the stock,
since any of them may come from the data. -/
structure Legible (K : Piece Tag → Prop) : Prop where
  plain : ∀ {text}, braceless text = true → K (.plain text)
  silent : ∀ {p}, K p → ∀ {ps : Pieces}, (∀ q ∈ ps, K q) →
    Silent recogniser.read p.hidden (join ps)
  read : ∀ {tag lexeme}, K (.found tag lexeme) → ∀ {ps : Pieces}, (∀ q ∈ ps, K q) →
    recogniser.read (lexeme ++ join ps) = some (tag, lexeme, join ps)

/-- What may come up among pieces that are moved about while data is put in: the pieces themselves,
and texts without braces. -/
def Stock (own : Pieces) (p : Piece Tag) : Prop :=
  p ∈ own ∨ ∃ text, p = .plain text ∧ braceless text = true

/-- Each tag among the pieces was read off some text. -/
def Genuine (ps : Pieces) : Prop :=
  ∀ tag lexeme, .found tag lexeme ∈ ps → ∃ s rest, recogniser.read s = some (tag, lexeme, rest)

/-- The pieces of a text come from reading it. -/
theorem genuine_pieces (s : List Char) : Genuine (recogniser.pieces s) := by
  intro tag lexeme h
  obtain ⟨before, behind, hps⟩ := List.append_of_mem h
  obtain ⟨rest, -, hread⟩ := (hps ▸ recogniser.cut_pieces s).read
  exact ⟨_, rest, hread⟩

/-- The pieces of a text belong to its stock. -/
theorem stock_pieces (s : List Char) : ∀ q ∈ recogniser.pieces s, Stock (recogniser.pieces s) q :=
  fun _ hq => .inl hq

variable {K : Piece Tag → Prop} {s t front rest sign : List Char} {tag : Tag} {p : Piece Tag}
  {ps a b : Pieces}

/-! ### Settled texts -/

/-- Each opening brace is followed by a character other than an opening brace. -/
def settled : List Char → Bool
  | [] => true
  | c :: s => (c != '{' || s.head?.any (· != '{')) && settled s

/-- A text without an opening brace is settled. -/
theorem settled_of_not_mem (h : '{' ∉ s) : settled s = true := by
  induction s with
  | nil => rfl
  | cons c s ih =>
    rw [List.mem_cons, not_or] at h
    rw [settled, ih h.2]
    simp [Ne.symm h.1]

/-- An opening brace in front of another character changes nothing. -/
theorem settled_cons_cons {d : Char} (hd : d ≠ '{') (h : settled s = true) :
    settled ('{' :: d :: s) = true := by
  rw [settled, settled, h]
  simp [hd]

/-- A text without an opening brace in front changes nothing. -/
theorem settled_append_left (hs : '{' ∉ s) (h : settled t = true) : settled (s ++ t) = true := by
  induction s with
  | nil => exact h
  | cons c s ih =>
    rw [List.mem_cons, not_or] at hs
    rw [List.cons_append, settled, ih hs.2]
    simp [Ne.symm hs.1]

/-- In a text without two opening braces in a row, only the last character could be followed by a
brace that stands behind it. -/
theorem settled_append_right (hs : ¬ opening <:+: s) (hne : t ≠ []) (ht : '{' ∉ t) :
    settled (s ++ t) = true := by
  induction s with
  | nil => exact settled_of_not_mem ht
  | cons c s ih =>
    have hrest := ih fun hpair => hs (hpair.trans (List.suffix_cons c s).isInfix)
    rw [List.cons_append, settled, hrest, Bool.and_true, Bool.or_eq_true]
    by_cases hc : c = '{'
    · subst hc
      right
      cases s with
      | nil =>
        obtain ⟨d, t, rfl⟩ := List.exists_cons_of_ne_nil hne
        rw [List.mem_cons, not_or] at ht
        simpa using Ne.symm ht.1
      | cons d s =>
        have hd : d ≠ '{' := by
          rintro rfl
          exact hs ⟨[], s, rfl⟩
        simpa using hd
    · exact .inl (by simpa using hc)

/-- A tag begins with an opening brace. -/
theorem recogniser_read_of_ne {c : Char} (h : c ≠ '{') (s : List Char) :
    recogniser.read (c :: s) = none := by
  cases hr : recogniser.read (c :: s) with
  | none => rfl
  | some x =>
    obtain ⟨tag, front, rest⟩ := x
    obtain ⟨w, rfl⟩ := recogniser_begins hr
    exact absurd (List.cons.inj (recogniser.faithful hr)).1 h

/-- A tag begins with two opening braces. -/
theorem recogniser_read_of_second_ne {c d : Char} (h : d ≠ '{') (s : List Char) :
    recogniser.read (c :: d :: s) = none := by
  cases hr : recogniser.read (c :: d :: s) with
  | none => rfl
  | some x =>
    obtain ⟨tag, front, rest⟩ := x
    obtain ⟨w, rfl⟩ := recogniser_begins hr
    exact absurd (List.cons.inj (List.cons.inj (recogniser.faithful hr)).2).1 h

/-- **No tag begins inside a settled text**, whatever stands behind it. -/
theorem silent_of_settled (h : settled s = true) (t : List Char) : Silent recogniser.read s t := by
  induction s with
  | nil => exact silent_nil _ _
  | cons c s ih =>
    rw [settled, Bool.and_eq_true, Bool.or_eq_true] at h
    obtain ⟨hc, hs⟩ := h
    refine silent_cons.2 ⟨?_, ih hs⟩
    rcases hc with hc | hc
    · exact recogniser_read_of_ne (by simpa using hc) _
    · cases s with
      | nil => exact absurd hc (by simp)
      | cons d s => exact recogniser_read_of_second_ne (by simpa using hc) _

/-- The condition of a tag compares with an operand that has no opening brace in it, if it compares
at all. -/
def Tag.plainOperand : Tag → Bool
  | .ifOpen c => c.comparison.all fun t => !t.operand.toList.contains '{'
  | _ => true

/-- A plain operand has no two opening braces in a row. -/
theorem Tag.not_infix_of_plainOperand (h : tag.plainOperand = true) :
    ∀ c, tag = .ifOpen c → ¬ opening <:+: operandText c := by
  rintro c rfl hpair
  have hm : '{' ∈ operandText c := hpair.subset (by decide)
  rw [Tag.plainOperand] at h
  rw [operandText] at hm
  cases hcomparison : c.comparison with
  | none =>
    rw [hcomparison] at hm
    exact absurd hm (by decide)
  | some t =>
    rw [hcomparison] at h hm
    simp_all

/-- Behind its first brace a tag is settled, unless its operand is not. -/
theorem settled_tail_of_read (h : recogniser.read s = some (tag, front, rest))
    (htag : ∀ c, tag = .ifOpen c → ¬ opening <:+: operandText c) : settled front.tail = true := by
  cases tag with
  | placeholder path =>
    obtain ⟨hpath, rfl, -⟩ := placeholderPath_eq_some.1 (placeholderPath_read_iff.2 h)
    -- without the first brace the second one is left, and a path has none
    obtain ⟨c, w, hw, hc⟩ := exists_cons_of_isPath hpath
    have hopen := opening_not_mem_of_isPath hpath
    rw [hw, List.mem_cons, not_or] at hopen
    rw [hw]
    exact settled_cons_cons (Ne.symm hopen.1) (settled_of_not_mem (by simp [hopen.2, closing]))
  | eachOpen key =>
    obtain ⟨-, w, rfl, hw⟩ := loopKey_eq_some (loopKey_read_iff.2 h)
    exact settled_cons_cons (by decide) (settled_of_not_mem (by simp [hw]))
  | ifOpen c =>
    obtain ⟨u, w, rfl, hu, hw⟩ := condition_eq_some (condition_read_iff.2 h)
    -- braces can only stand in the operand, and two of them in a row not even there
    have hbehind : settled (operandText c ++ (w ++ closing)) = true :=
      settled_append_right (htag c rfl) (by simp [closing]) (by simp [hw, closing])
    have hinner : settled ('i' :: u ++ (operandText c ++ (w ++ closing))) = true :=
      settled_append_left (by simp [hu]) hbehind
    exact settled_cons_cons (by decide) hinner
  | eachClose => rw [(sign_eachClose.1 h).1]; decide
  | otherwise => rw [(sign_otherwise.1 h).1]; decide
  | ifClose => rw [(sign_ifClose.1 h).1]; decide

/-- Genuine pieces are legible as soon as no tag begins inside one of them. -/
theorem legible_of_silent {own : Pieces} (hgenuine : Genuine own)
    (hsilent : ∀ {p}, Stock own p → ∀ {ps : Pieces}, (∀ q ∈ ps, Stock own q) →
      Silent recogniser.read p.hidden (join ps)) : Legible (Stock own) where
  plain ht := .inr ⟨_, rfl, ht⟩
  silent := hsilent
  read := by
    rintro tag lexeme (hp | ⟨_, he, -⟩) ps -
    · obtain ⟨s, rest, hread⟩ := hgenuine _ _ hp
      exact closing_recogniser.steady _ hread
    · cases he

/-- **Settled pieces are legible.** -/
theorem legible_of_settled {own : Pieces} (hgenuine : Genuine own)
    (hsettled : ∀ p ∈ own, settled p.hidden = true) : Legible (Stock own) := by
  refine legible_of_silent hgenuine ?_
  rintro p (hp | ⟨text, rfl, htext⟩) ps -
  · exact silent_of_settled (hsettled p hp) _
  · have hopen : '{' ∉ text := by
      simp only [braceless, Bool.and_eq_true] at htext
      simpa using htext.1
    exact silent_of_settled (settled_of_not_mem hopen) _

/-! ### Searching legible pieces -/

namespace Pieces

/-- The pieces in front of the first one that is the tag, that piece, and the pieces behind it. -/
def cutAt? (tag : Tag) : Pieces → Option (Pieces × Piece Tag × Pieces)
  | [] => none
  | p :: ps =>
    if p.tag? = some tag then some ([], p, ps)
    else (cutAt? tag ps).map fun (a, q, b) => (p :: a, q, b)

/-- Pieces are cut at the first one that is the tag. -/
theorem cutAt?_append (ha : ∀ q ∈ a, q.tag? ≠ some tag) (hp : p.tag? = some tag) (b : Pieces) :
    cutAt? tag (a ++ p :: b) = some (a, p, b) := by
  induction a with
  | nil => rw [List.nil_append, cutAt?, if_pos hp]
  | cons q a ih =>
    rw [List.forall_mem_cons] at ha
    rw [List.cons_append, cutAt?, if_neg ha.1, ih ha.2]
    rfl

/-- There is no cut where no piece is the tag. -/
theorem cutAt?_eq_none : cutAt? tag ps = none ↔ ∀ q ∈ ps, q.tag? ≠ some tag := by
  induction ps with
  | nil => exact ⟨fun _ _ hq => absurd hq List.not_mem_nil, fun _ => rfl⟩
  | cons q ps ih =>
    rw [cutAt?, List.forall_mem_cons, ← ih]
    split
    · next hq => exact ⟨nofun, fun h => absurd hq h.1⟩
    · next hq => simp [hq]

/-- What a cut consists of. -/
theorem cutAt?_eq_some (h : cutAt? tag ps = some (a, p, b)) :
    ps = a ++ p :: b ∧ p.tag? = some tag ∧ ∀ q ∈ a, q.tag? ≠ some tag := by
  induction ps generalizing a with
  | nil => cases h
  | cons q ps ih =>
    rw [cutAt?] at h
    split at h
    · next hq =>
      obtain ⟨rfl, rfl, rfl⟩ := h
      exact ⟨rfl, hq, fun _ hm => absurd hm List.not_mem_nil⟩
    · next hq =>
      obtain ⟨⟨a', p', b'⟩, hcut, he⟩ := Option.map_eq_some_iff.1 h
      obtain ⟨rfl, rfl, rfl⟩ := he
      obtain ⟨rfl, hp, ha⟩ := ih hcut
      exact ⟨rfl, hp, List.forall_mem_cons.2 ⟨hq, ha⟩⟩

end Pieces

/-- A way of reading that finds nothing but tags that meet `is`. -/
def Anchored {β : Type} (read : List Char → Option β) (is : Tag → Prop) : Prop :=
  ∀ {s x}, read s = some x → ∃ tag front rest, recogniser.read s = some (tag, front, rest) ∧ is tag

/-- Where no tag begins, nothing is found that begins with a tag. -/
theorem Anchored.silent {β : Type} {read : List Char → Option β} {is : Tag → Prop}
    (hr : Anchored read is) (h : Silent recogniser.read s t) : Silent read s t := by
  refine h.mono fun u hu => ?_
  cases hx : read u with
  | none => rfl
  | some x =>
    obtain ⟨tag, front, rest, hread, -⟩ := hr hx
    rw [hu] at hread
    cases hread

/-- Placeholders are looked for by a reader that finds nothing else. -/
theorem anchored_placeholderPath :
    Anchored placeholderPath.read fun tag => ∃ path, tag = .placeholder path := by
  intro s x hx
  exact ⟨_, _, _, placeholderPath_read_iff.1 hx, _, rfl⟩

/-- A spelling is looked for by a reader that finds nothing but its tag. -/
theorem Tag.Sign.anchored (h : Sign tag sign) : Anchored (after? sign) (· = tag) := by
  intro s rest hs
  exact ⟨tag, sign, rest, h.after?_eq_some_iff.1 hs, rfl⟩

/-- A spelling is not empty. -/
theorem Tag.Sign.ne_nil (h : Sign tag sign) : sign ≠ [] :=
  recogniser.advances (h.2 ⟨rfl, (List.append_nil sign).symm⟩)

/-! ### Pieces in place -/

/-- **A piece in place.** In front of `t` it is read as the tag that it is, and no tag begins inside
it. -/
structure Text.Piece.InPlace (p : Piece Tag) (t : List Char) : Prop where
  silent : Silent recogniser.read p.hidden t
  read : ∀ {tag lexeme}, p = .found tag lexeme →
    recogniser.read (lexeme ++ t) = some (tag, lexeme, t)

/-- Each piece is in place in front of those behind it. -/
def Pieces.InPlace : Pieces → Prop
  | [] => True
  | p :: ps => p.InPlace (join ps) ∧ InPlace ps

variable {β : Type} {read : List Char → Option β} {is : Tag → Prop}

namespace Text.Piece.InPlace

/-- A reader that finds nothing at the beginning of a piece finds nothing inside it. -/
theorem silent_of_front (h : p.InPlace t) (hr : Anchored read is)
    (hfront : p.tag?.isSome → read (p.text ++ t) = none) : Silent read p.text t := by
  have hhidden := hr.silent h.silent
  cases p with
  | plain text => exact hhidden
  | found tag lexeme =>
    obtain ⟨c, s, rfl⟩ := List.exists_cons_of_ne_nil (recogniser.advances (h.read rfl))
    exact silent_cons.2 ⟨hfront rfl, hhidden⟩

/-- A reader of other tags finds nothing in a piece. -/
theorem silent_text (h : p.InPlace t) (hr : Anchored read is)
    (hother : ∀ tag, p.tag? = some tag → ¬ is tag) : Silent read p.text t := by
  refine h.silent_of_front hr fun htag => ?_
  cases p with
  | plain text => cases htag
  | found tag lexeme =>
    cases hx : read (lexeme ++ t) with
    | none => exact hx
    | some x =>
      obtain ⟨tag', front, rest, hread, his⟩ := hr hx
      rw [h.read rfl] at hread
      obtain ⟨rfl, -⟩ := hread
      exact absurd his (hother _ rfl)

/-- A tag that is read in a piece is that piece. -/
theorem eq_of_read (h : p.InPlace t) (htext : p.text = s ++ sign) (hsign : sign ≠ [])
    (hread : recogniser.read (sign ++ t) = some (tag, front, rest)) :
    s = [] ∧ p = .found tag front ∧ rest = t := by
  have hhidden : ¬ sign <:+ p.hidden := by
    intro hsuffix
    rw [h.silent sign hsign hsuffix] at hread
    cases hread
  cases p with
  | plain text => exact absurd ⟨s, htext.symm⟩ hhidden
  | found tag' lexeme =>
    have htext : lexeme = s ++ sign := htext
    cases s with
    | nil =>
      rw [List.nil_append] at htext
      subst htext
      rw [h.read rfl] at hread
      obtain ⟨rfl, rfl, rfl⟩ := hread
      exact ⟨rfl, rfl, rfl⟩
    | cons c s => exact absurd ⟨s, by rw [Piece.hidden, htext]; rfl⟩ hhidden

end Text.Piece.InPlace

namespace Pieces.InPlace

/-- The last pieces are in place by themselves. -/
theorem of_append (h : InPlace (a ++ b)) : InPlace b := by
  induction a with
  | nil => exact h
  | cons p a ih => exact ih h.2

/-- A tag with a sign is found in the text where its first piece is. -/
theorem split?_join (h : InPlace ps) (hsign : Sign tag sign) :
    split? sign [] (join ps) = (cutAt? tag ps).map fun (a, _, b) => (join a, join b) := by
  induction ps with
  | nil => exact split?_nil hsign.ne_nil
  | cons p ps ih =>
    rw [join_cons, cutAt?]
    by_cases htag : p.tag? = some tag
    · rw [if_pos htag]
      cases p with
      | plain text => cases htag
      | found tag' lexeme =>
        obtain rfl : tag' = tag := Option.some.inj htag
        have hread := h.1.read rfl
        obtain ⟨rfl, -⟩ := hsign.1 hread
        have hne := List.append_ne_nil_of_left_ne_nil hsign.ne_nil (join ps)
        exact split?_of_after? hne (hsign.after?_eq_some_iff.2 hread)
    · rw [if_neg htag, split?_append_of_silent, ih h.2]
      · simp [Option.map_map, Function.comp_def]
      · exact h.1.silent_text hsign.anchored fun tag' ht he => htag (he ▸ ht)

/-- **A tag that is read in the text of pieces in place** is one of the pieces. -/
theorem cut_of_read (h : InPlace ps) (hjoin : join ps = s ++ t)
    (hread : recogniser.read t = some (tag, front, rest)) :
    ∃ a b, ps = a ++ .found tag front :: b ∧ join a = s ∧ join b = rest := by
  induction ps generalizing s with
  | nil =>
    obtain ⟨-, rfl⟩ := List.append_eq_nil_iff.1 hjoin.symm
    rw [Recogniser.read_nil] at hread
    cases hread
  | cons p ps ih =>
    have hlater : ∀ w, s = p.text ++ w → join ps = w ++ t →
        ∃ a b, p :: ps = a ++ .found tag front :: b ∧ join a = s ∧ join b = rest := by
      rintro w rfl hw
      obtain ⟨a, b, rfl, rfl, hb⟩ := ih h.2 hw
      exact ⟨p :: a, b, rfl, rfl, hb⟩
    rw [join_cons] at hjoin
    rcases List.append_eq_append_iff.1 hjoin with ⟨w, hs, hw⟩ | ⟨w, htext, ht⟩
    · exact hlater w hs hw
    · by_cases hw : w = []
      · subst hw
        rw [List.append_nil] at htext
        exact hlater [] (by rw [htext, List.append_nil]) ht.symm
      · rw [ht] at hread
        obtain ⟨rfl, rfl, rfl⟩ := h.1.eq_of_read htext hw hread
        exact ⟨[], ps, rfl, rfl, rfl⟩

end Pieces.InPlace

/-- The pieces of a text are in place, unless an operand has two opening braces in a row. -/
theorem inPlace_pieces (s : List Char) (h : ∀ c lexeme, .found (.ifOpen c) lexeme ∈ recogniser.pieces s →
    ¬ opening <:+: operandText c) : InPlace (recogniser.pieces s) := by
  have hcut := recogniser.cut_pieces s
  generalize recogniser.pieces s = ps at h hcut
  induction hcut with
  | nil => trivial
  | plain htext hrest ih =>
    have hps := ih fun c lexeme hm => h c lexeme (List.mem_cons_of_mem _ hm)
    exact ⟨⟨by rwa [join, hrest.flatten], nofun⟩, hps⟩
  | found hread hrest ih =>
    have hps := ih fun c lexeme hm => h c lexeme (List.mem_cons_of_mem _ hm)
    refine ⟨⟨?_, ?_⟩, hps⟩
    · refine silent_of_settled (settled_tail_of_read hread ?_) _
      rintro c rfl
      exact h c _ List.mem_cons_self
    · rintro tag lexeme ⟨rfl, rfl⟩
      rwa [join, hrest.flatten]

namespace Legible

/-- **A legible piece is in place** in front of whatever pieces follow it. -/
theorem piece_inPlace (h : Legible K) (hp : K p) (hps : ∀ q ∈ ps, K q) : p.InPlace (join ps) where
  silent := h.silent hp hps
  read := by
    rintro tag lexeme rfl
    exact h.read hp hps

/-- Legible pieces are in place, however they are put together. -/
theorem inPlace (h : Legible K) (hps : ∀ q ∈ ps, K q) : InPlace ps := by
  induction ps with
  | nil => trivial
  | cons p ps ih =>
    rw [List.forall_mem_cons] at hps
    exact ⟨h.piece_inPlace hps.1 hps.2, ih hps.2⟩

/-- Nothing begins behind the first brace of a legible piece. -/
theorem silent_hidden (h : Legible K) (hr : Anchored read is) (hp : K p) (hps : ∀ q ∈ ps, K q) :
    Silent read p.hidden (join ps) := hr.silent (h.silent hp hps)

theorem silent_of_front (h : Legible K) (hr : Anchored read is) (hp : K p) (hps : ∀ q ∈ ps, K q)
    (hfront : p.tag?.isSome → read (p.text ++ join ps) = none) : Silent read p.text (join ps) :=
  (h.piece_inPlace hp hps).silent_of_front hr hfront

theorem silent_text (h : Legible K) (hr : Anchored read is) (hp : K p) (hps : ∀ q ∈ ps, K q)
    (hother : ∀ tag, p.tag? = some tag → ¬ is tag) : Silent read p.text (join ps) :=
  (h.piece_inPlace hp hps).silent_text hr hother

/-- The text is split where the pieces are cut. -/
theorem split?_join (h : Legible K) (hsign : Sign tag sign) (hps : ∀ q ∈ ps, K q) :
    split? sign [] (join ps) = (cutAt? tag ps).map fun (a, _, b) => (join a, join b) :=
  (h.inPlace hps).split?_join hsign

end Legible

end Stencil
