import Stencil.Proofs.Passes
import Stencil.Proofs.Spelling

/-!
# What the scans find

What a scan finds is settled by where its constructs stand in a text: it takes the first one, goes on at
the end of that, and so on until none stands in what is left.

* `Leftmost`: the first constructs one after the other. There is one list of them (`Leftmost.unique`),
  and it is what a scan finds (`Recogniser.leftmost_findAll`).
* `split?_eq_some_iff`: a search finds the first occurrence.
* `PlaceholderAt`, `BlockAt`: where placeholders, loops and conditionals stand in a text.
* `scans_find_leftmost`: what the scans for them find in any text.
-/

namespace Stencil

open Text Tag

variable {α γ : Type} {s t a b c d front rest : List Char}

/-! ### First constructs -/

/-- **The first constructs one after the other.** From byte position `n` on, each is the first that begins
behind the end of the one before it, and none begins behind the end of the last. -/
inductive Leftmost (Stands : α → Nat → Nat → Prop) : Nat → List (α × Nat × Nat) → Prop where
  | done {n : Nat} : (∀ x start stop, Stands x start stop → start < n) → Leftmost Stands n []
  | next {n start stop : Nat} {x : α} {found : List (α × Nat × Nat)} :
    Stands x start stop → n ≤ start →
    (∀ x' start' stop', Stands x' start' stop' → n ≤ start' → start ≤ start') →
    Leftmost Stands stop found → Leftmost Stands n ((x, start, stop) :: found)

namespace Leftmost

variable {Stands : α → Nat → Nat → Prop} {found found' : List (α × Nat × Nat)} {n m : Nat}

/-- Where no construct begins in between, it does not matter from where the first ones are taken. -/
theorem of_gap (h : Leftmost Stands m found) (hnm : n ≤ m)
    (hgap : ∀ x start stop, Stands x start stop → n ≤ start → m ≤ start) :
    Leftmost Stands n found := by
  cases h with
  | done hnone =>
    refine .done fun x start stop hx => ?_
    have hlt := hnone x start stop hx
    rcases Nat.lt_or_ge start n with hn | hn
    · exact hn
    · have := hgap x start stop hx hn
      omega
  | next hx hle hfirst hrest =>
    refine .next hx (by omega) (fun x' start' stop' hx' hle' => ?_) hrest
    exact hfirst x' start' stop' hx' (hgap x' start' stop' hx' hle')

/-- Where a construct begins decides what it is and where it ends. -/
def Functional (Stands : α → Nat → Nat → Prop) : Prop :=
  ∀ x x' start stop stop', Stands x start stop → Stands x' start stop' → x = x' ∧ stop = stop'

/-- There is only one such list, where the beginning of a construct decides the rest of it. -/
theorem unique (hfun : Functional Stands) (h : Leftmost Stands n found)
    (h' : Leftmost Stands n found') : found = found' := by
  induction h generalizing found' with
  | done hnone =>
    cases h' with
    | done _ => rfl
    | next hx hle _ _ =>
      have := hnone _ _ _ hx
      omega
  | next hx hle hfirst _ ih =>
    cases h' with
    | done hnone =>
      have := hnone _ _ _ hx
      omega
    | next hx' hle' hfirst' hrest' =>
      have h1 := hfirst _ _ _ hx' hle'
      have h2 := hfirst' _ _ _ hx hle
      obtain rfl := Nat.le_antisymm h1 h2
      obtain ⟨rfl, rfl⟩ := hfun _ _ _ _ _ hx hx'
      rw [ih hrest']

/-- The first constructs follow one another. -/
theorem pairwise (hlt : ∀ x start stop, Stands x start stop → start < stop)
    (h : Leftmost Stands n found) :
    (∀ x ∈ found, n ≤ x.2.1) ∧ found.Pairwise fun x y => x.2.2 ≤ y.2.1 := by
  induction h with
  | done _ => exact ⟨nofun, .nil⟩
  | @next n start stop x found hx hle _ _ ih =>
    have hstop := hlt _ _ _ hx
    refine ⟨List.forall_mem_cons.2 ⟨hle, fun y hy => ?_⟩, .cons ih.1 ih.2⟩
    have := ih.1 y hy
    show n ≤ y.2.1
    omega

/-- Constructs that do not overlap are all among the first ones. -/
theorem mem_of_apart (hfun : Functional Stands)
    (hapart : ∀ x start stop x' start' stop', Stands x start stop → Stands x' start' stop' →
      start < start' → stop ≤ start') (h : Leftmost Stands n found) {x : α} {start stop : Nat}
    (hx : Stands x start stop) (hle : n ≤ start) : (x, start, stop) ∈ found := by
  induction h with
  | done hnone =>
    have := hnone _ _ _ hx
    omega
  | @next n start' stop' x' found hx' _ hfirst _ ih =>
    rcases Nat.eq_or_lt_of_le (hfirst _ _ _ hx hle) with rfl | hlt
    · obtain ⟨rfl, rfl⟩ := hfun _ _ _ _ _ hx hx'
      exact List.mem_cons_self
    · exact List.mem_cons_of_mem _ (ih (hapart _ _ _ _ _ _ hx' hx hlt))

/-- What stands where may be said in another way. -/
theorem congr {Stands' : α → Nat → Nat → Prop} (h : Leftmost Stands n found)
    (he : ∀ x start stop, Stands x start stop ↔ Stands' x start stop) : Leftmost Stands' n found := by
  have hstands : Stands = Stands' := by
    funext x start stop
    exact propext (he x start stop)
  exact hstands ▸ h

end Leftmost

/-! ### Scans -/

namespace Text

theorem size_nil_iff : size s = 0 ↔ s = [] := by
  constructor
  · intro h
    by_cases hs : s = []
    · exact hs
    · have := size_pos hs
      omega
  · rintro rfl
    rfl

/-- A front part that is no shorter than another one begins with it. -/
theorem exists_append_of_size_le (h : a ++ b = c ++ d) (hle : size a ≤ size c) :
    ∃ x, c = a ++ x ∧ b = x ++ d := by
  rcases List.append_eq_append_iff.1 h with ⟨x, hc, hb⟩ | ⟨x, rfl, rfl⟩
  · exact ⟨x, hc, hb⟩
  · rw [size_append] at hle
    obtain rfl : x = [] := size_nil_iff.1 (by omega)
    exact ⟨[], by simp, rfl⟩

namespace Recogniser

variable {r : Recogniser α}

/-- At one place one thing is read. -/
theorem functional_readsAt (r : Recogniser α) (s : List Char) : Leftmost.Functional (r.ReadsAt s) := by
  rintro x x' _ _ _ ⟨before, front, rest, hs, hread, rfl, rfl⟩
    ⟨before', front', rest', hs', hread', hstart, rfl⟩
  obtain ⟨y, rfl, hy⟩ := exists_append_of_size_le (hs.symm.trans hs') (Nat.le_of_eq hstart)
  rw [size_append] at hstart
  obtain rfl : y = [] := size_nil_iff.1 (by omega)
  rw [List.nil_append] at hy
  rw [hy, hread'] at hread
  obtain ⟨rfl, rfl, -⟩ : x' = x ∧ front' = front ∧ rest' = rest := by simpa using hread
  exact ⟨rfl, by simp⟩

theorem lt_of_readsAt {x : α} {start stop : Nat} (h : r.ReadsAt s x start stop) : start < stop := by
  obtain ⟨before, front, rest, -, hread, rfl, rfl⟩ := h
  have := size_pos (r.advances hread)
  omega

/-- **A scan finds the first constructs one after the other**, by induction on the pieces it makes. -/
theorem leftmost_constructs {ps : List (Piece α)} (h : r.Cut ps s) (before : List Char) :
    Leftmost (r.ReadsAt (before ++ s)) (size before) (Piece.constructs (size before) ps) := by
  induction h generalizing before with
  | nil =>
    refine .done ?_
    rintro x _ _ ⟨before', front, rest, hs, hread, rfl, rfl⟩
    have hfront := size_pos (r.advances hread)
    have hsize := congrArg size hs
    simp only [size_append, size_nil] at hsize
    omega
  | @plain text rest ps htext _ ih =>
    have hrest := ih (before ++ text)
    rw [List.append_assoc, size_append] at hrest
    refine hrest.of_gap (by omega) ?_
    rintro x _ _ ⟨before', front, rest', hs, hread, rfl, rfl⟩ hle
    obtain ⟨y, rfl, hy⟩ := exists_append_of_size_le hs hle
    rw [size_append]
    rcases Nat.lt_or_ge (size y) (size text) with hlt | hge
    · -- the construct would begin inside the silent text
      obtain ⟨z, rfl, hz⟩ := exists_append_of_size_le hy.symm (Nat.le_of_lt hlt)
      have hne : z ≠ [] := by
        rintro rfl
        rw [List.append_nil] at hlt
        omega
      rw [hz, htext z hne ⟨y, rfl⟩] at hread
      cases hread
    · omega
  | @found front rest x ps hread _ ih =>
    have hrest := ih (before ++ front)
    rw [List.append_assoc, size_append] at hrest
    exact .next ⟨before, front, rest, rfl, hread, rfl, rfl⟩ (Nat.le_refl _) (fun _ _ _ _ hle => hle) hrest

/-- **A scan finds the first constructs** of a text one after the other. -/
theorem leftmost_findAll (r : Recogniser α) (s : List Char) :
    Leftmost (r.ReadsAt s) 0 (r.findAll s) := leftmost_constructs (r.cut_pieces s) []

end Recogniser

/-! ### Searches -/

/-- **The first occurrence** of `needle` in `s`, with the text before it and the text behind it. -/
structure FirstOccurrence (needle s before behind : List Char) : Prop where
  text_eq : s = before ++ (needle ++ behind)
  first : ∀ before' behind', s = before' ++ (needle ++ behind') → before <+: before'

/-- A text is split at the first place of the needle. -/
theorem split?_eq_some_iff {needle : List Char} :
    split? needle [] s = some (a, b) ↔ FirstOccurrence needle s a b := by
  induction s generalizing a with
  | nil =>
    rw [split?, Option.map_eq_some_iff]
    constructor
    · rintro ⟨t, ht, he⟩
      obtain ⟨rfl, rfl⟩ : [] = a ∧ t = b := by simpa using he
      have htext : [] = needle ++ t := after?_eq_some_iff.1 ht
      exact ⟨htext, fun _ _ _ => List.nil_prefix⟩
    · rintro ⟨htext, -⟩
      obtain ⟨rfl, hneedle⟩ := List.append_eq_nil_iff.1 htext.symm
      exact ⟨b, after?_eq_some_iff.2 hneedle.symm, rfl⟩
  | cons c s ih =>
    cases hafter : after? needle (c :: s) with
    | some t =>
      have htext := after?_eq_some_iff.1 hafter
      rw [split?, hafter]
      constructor
      · intro h
        obtain ⟨rfl, rfl⟩ : [] = a ∧ t = b := by simpa using h
        exact ⟨htext, fun _ _ _ => List.nil_prefix⟩
      · intro h
        obtain rfl : a = [] := List.prefix_nil.1 (h.first [] t htext)
        have hbehind : after? needle (c :: s) = some b := after?_eq_some_iff.2 h.text_eq
        rw [hafter] at hbehind
        rw [Option.some.inj hbehind]
        rfl
    | none =>
      -- no occurrence begins here, so that each begins behind the first character
      have hpast : ∀ {x y : List Char}, c :: s = x ++ (needle ++ y) →
          ∃ x', x = c :: x' ∧ s = x' ++ (needle ++ y) := by
        intro x y hx
        cases x with
        | nil =>
          have hfront : after? needle (c :: s) = some y := after?_eq_some_iff.2 hx
          rw [hafter] at hfront
          cases hfront
        | cons d x =>
          obtain ⟨rfl, hrest⟩ := List.cons.inj hx
          exact ⟨x, rfl, hrest⟩
      rw [split?, hafter]
      dsimp only
      rw [split?_seen, Option.map_eq_some_iff]
      constructor
      · rintro ⟨⟨x, y⟩, hxy, he⟩
        obtain ⟨rfl, rfl⟩ : c :: x = a ∧ y = b := by simpa using he
        obtain ⟨htext, hfirst⟩ := ih.1 hxy
        refine ⟨congrArg (c :: ·) htext, fun x' y' hx' => ?_⟩
        obtain ⟨z, rfl, hz⟩ := hpast hx'
        exact (List.prefix_cons_inj c).2 (hfirst z y' hz)
      · intro h
        obtain ⟨x, rfl, hx⟩ := hpast h.text_eq
        refine ⟨(x, b), ih.2 ⟨hx, fun x' y' hx' => ?_⟩, by simp⟩
        exact (List.prefix_cons_inj c).1 (h.first (c :: x') y' (congrArg (c :: ·) hx'))

end Text

/-! ### Placeholders -/

namespace Tag

/-- Keys with points between them. -/
inductive Path : List Char → Prop where
  | key {k : List Char} : IsKey k → Path k
  | point {k p : List Char} : IsKey k → Path p → Path (k ++ '.' :: p)

/-- A path is a key, or a key with a point and a path behind it. -/
theorem exists_key_of_isPathFrom {inKey : Bool} (h : isPathFrom inKey s = true) :
    ∃ k, (∀ c ∈ k, isKeyChar c = true) ∧ (inKey = false → k ≠ []) ∧
      (s = k ∨ ∃ p, s = k ++ '.' :: p ∧ isPath p = true) := by
  induction s generalizing inKey with
  | nil =>
    rw [isPathFrom] at h
    refine ⟨[], fun c hc => absurd hc List.not_mem_nil, fun hfalse => ?_, .inl rfl⟩
    rw [h] at hfalse
    cases hfalse
  | cons c s ih =>
    rw [isPathFrom] at h
    split at h
    · next hc =>
      obtain ⟨k, hk, -, hs⟩ := ih h
      refine ⟨c :: k, List.forall_mem_cons.2 ⟨hc, hk⟩, fun _ => List.cons_ne_nil c k, ?_⟩
      rcases hs with rfl | ⟨p, rfl, hp⟩
      · exact .inl rfl
      · exact .inr ⟨p, rfl, hp⟩
    · simp only [Bool.and_eq_true, beq_iff_eq] at h
      obtain ⟨⟨rfl, hkey⟩, hs⟩ := h
      refine ⟨[], fun c hc => absurd hc List.not_mem_nil, fun hfalse => ?_, .inr ⟨s, rfl, hs⟩⟩
      rw [hkey] at hfalse
      cases hfalse

/-- The check for paths is right. -/
theorem isPath_iff : isPath s = true ↔ Path s := by
  constructor
  · intro h
    -- on the length, as a key is left behind in one step
    induction hn : s.length using Nat.strongRecOn generalizing s with
    | ind n ih =>
      subst hn
      obtain ⟨k, hk, hne, rfl | ⟨p, rfl, hp⟩⟩ := exists_key_of_isPathFrom h
      · exact .key ⟨hne rfl, hk⟩
      · have hlt : p.length < (k ++ '.' :: p).length := by simp; omega
        exact .point ⟨hne rfl, hk⟩ (ih p.length hlt hp rfl)
  · intro h
    induction h with
    | key hk => exact isPath_of_forall hk.2 hk.1
    | point hk _ ih => exact isPath_append_dot (isPath_of_forall hk.2 hk.1) ih

end Tag

/-- **Where a placeholder stands**: a path between braces, from byte `start` to byte `stop`. -/
def PlaceholderAt (s : List Char) (path : String) (start stop : Nat) : Prop :=
  Path path.toList ∧ ∃ before behind, s = before ++ (braced path.toList ++ behind) ∧
    start = size before ∧ stop = size before + size (braced path.toList)

/-- What is read as a placeholder is one. -/
theorem readsAt_placeholder_iff {path : String} {start stop : Nat} :
    placeholderPath.ReadsAt s path start stop ↔ PlaceholderAt s path start stop := by
  constructor
  · rintro ⟨before, front, rest, hs, hread, hstart, hstop⟩
    obtain ⟨hpath, rfl, -⟩ := placeholderPath_eq_some.1 hread
    exact ⟨isPath_iff.1 hpath, before, rest, hs, hstart, hstop⟩
  · rintro ⟨hpath, before, behind, hs, hstart, hstop⟩
    refine ⟨before, braced path.toList, behind, hs, ?_, hstart, hstop⟩
    exact placeholderPath_eq_some.2 ⟨isPath_iff.2 hpath, rfl, rfl⟩

/-- A placeholder begins nowhere inside another one. -/
theorem placeholders_apart (s : List Char) (path : String) (start stop : Nat) (path' : String)
    (start' stop' : Nat) (h : PlaceholderAt s path start stop) (h' : PlaceholderAt s path' start' stop')
    (hlt : start < start') : stop ≤ start' := by
  obtain ⟨hpath, before, behind, rfl, rfl, rfl⟩ := h
  obtain ⟨-, before', behind', hs, rfl, rfl⟩ := h'
  obtain ⟨x, rfl, hx⟩ := exists_append_of_size_le hs (Nat.le_of_lt hlt)
  rw [size_append] at hlt ⊢
  rcases Nat.lt_or_ge (size x) (size (braced path.toList)) with hin | hout
  · obtain ⟨y, hy, hrest⟩ := exists_append_of_size_le hx.symm (Nat.le_of_lt hin)
    exfalso
    have hbrace := opening_not_mem_of_isPath (isPath_iff.2 hpath)
    obtain ⟨c, w, hw, hc⟩ := exists_cons_of_isPath (isPath_iff.2 hpath)
    rcases x with _ | ⟨d, _ | ⟨e, x⟩⟩
    · simp at hlt
    · -- the second of the braces that the path stands behind cannot be the first of two
      obtain ⟨-, rfl⟩ : d = '{' ∧ y = '{' :: (path.toList ++ closing) := by
        simpa [braced, opening, eq_comm] using hy
      have hbegins : '{' :: (path'.toList ++ closing ++ behind') = path.toList ++ closing ++ behind := by
        simpa [braced, opening] using hrest
      rw [hw] at hbegins
      obtain rfl : '{' = c := (List.cons.inj hbegins).1
      exact absurd hc (by decide)
    · have htail : path.toList ++ closing = x ++ y := by
        simp only [braced, opening, List.cons_append, List.nil_append, List.cons.injEq] at hy
        exact hy.2.2
      cases y with
      | nil => simp [hy] at hin
      | cons f y =>
        obtain rfl : '{' = f := (List.cons.inj hrest).1
        have hmem : '{' ∈ path.toList ++ closing := htail ▸ List.mem_append_right x List.mem_cons_self
        simp [hbrace, closing] at hmem
  · omega

/-! ### Blocks -/

/-- **Where a block stands**: from the start of an opening tag to the end of the first closing tag behind
that, with the body between the two. -/
def BlockAt (Opens : List Char → Prop) (sign s body : List Char) (start stop : Nat) : Prop :=
  ∃ before tag tail behind, s = before ++ (tag ++ tail) ∧ Opens tag ∧
    FirstOccurrence sign tail body behind ∧
    start = size before ∧ stop = size before + (size tag + size body + size sign)

/-- A loop stands between two byte positions. -/
def LoopAt (s : List Char) (b : LoopBlock) (start stop : Nat) : Prop :=
  BlockAt (LoopTag b.key) eachCloseText s b.body start stop

/-- A conditional stands between two byte positions. -/
def ConditionalAt (s : List Char) (b : ConditionalBlock) (start stop : Nat) : Prop :=
  BlockAt (ConditionTag b.condition) ifCloseText s b.body start stop

/-- What is read as a block begins with its opening tag and ends at the first closing one. -/
theorem readsAt_block_iff {opener : Recogniser α} {Opens : α → List Char → Prop}
    (hopener : ∀ {s x front rest}, opener.read s = some (x, front, rest) ↔
      Opens x front ∧ s = front ++ rest)
    (sign : List Char) (mk : α → List Char → γ) {y : γ} {start stop : Nat} :
    (opener.followedBy fun x => do let body ← Reader.upTo sign; return mk x body).ReadsAt s y start stop ↔
      ∃ x body, y = mk x body ∧ BlockAt (Opens x) sign s body start stop := by
  constructor
  · rintro ⟨before, front, rest, rfl, hread, rfl, rfl⟩
    rw [block_read, Option.bind_eq_some_iff] at hread
    obtain ⟨⟨x, tag, tail⟩, htag, hread⟩ := hread
    obtain ⟨⟨body, behind⟩, hbody, he⟩ := Option.map_eq_some_iff.1 hread
    obtain ⟨rfl, rfl, rfl⟩ : mk x body = y ∧ tag ++ (body ++ sign) = front ∧ behind = rest := by
      simpa using he
    obtain ⟨hopens, htext⟩ := hopener.1 htag
    exact ⟨x, body, rfl, before, tag, tail, behind, by rw [htext], hopens, split?_eq_some_iff.1 hbody,
      rfl, by simp [Nat.add_assoc]⟩
  · rintro ⟨x, body, rfl, before, tag, tail, behind, rfl, hopens, hbody, rfl, rfl⟩
    have htail := hbody.text_eq
    refine ⟨before, tag ++ (body ++ sign), behind, by rw [htail]; simp, ?_, rfl,
      by simp [Nat.add_assoc]⟩
    have htext : tag ++ (body ++ sign) ++ behind = tag ++ tail := by rw [htail]; simp
    rw [htext, block_read, hopener.2 ⟨hopens, rfl⟩, Option.bind_some]
    dsimp only
    rw [split?_eq_some_iff.2 hbody]
    rfl

/-- What is read as a loop is one. -/
theorem readsAt_loop_iff {b : LoopBlock} {start stop : Nat} :
    LoopBlock.recogniser.ReadsAt s b start stop ↔ LoopAt s b start stop := by
  refine (readsAt_block_iff loopKey_eq_some_iff eachCloseText LoopBlock.mk).trans ?_
  constructor
  · rintro ⟨key, body, rfl, h⟩
    exact h
  · intro h
    exact ⟨b.key, b.body, rfl, h⟩

/-- What is read as a conditional is one. -/
theorem readsAt_conditional_iff {b : ConditionalBlock} {start stop : Nat} :
    ConditionalBlock.recogniser.ReadsAt s b start stop ↔ ConditionalAt s b start stop := by
  refine (readsAt_block_iff condition_eq_some_iff ifCloseText ConditionalBlock.mk).trans ?_
  constructor
  · rintro ⟨condition, body, rfl, h⟩
    exact h
  · intro h
    exact ⟨b.condition, b.body, rfl, h⟩

/-! ### The scans -/

/-- **Constructs one behind the other**: each reaches over some characters of the text, and none
overlaps another. -/
structure InOrder (s : List Char) (found : List (α × Nat × Nat)) : Prop where
  characters : ∀ x ∈ found, ∃ before front behind, s = before ++ (front ++ behind) ∧
    x.2.1 = size before ∧ x.2.2 = size before + size front
  nonempty : ∀ x ∈ found, x.2.1 < x.2.2
  apart : found.Pairwise fun x y => x.2.2 ≤ y.2.1

/-- What is found comes in order, without overlaps. -/
theorem Text.Recogniser.inOrder_findAll (r : Recogniser α) (s : List Char) :
    InOrder s (r.findAll s) := by
  have hleft := r.leftmost_findAll s
  refine ⟨fun x hx => ?_, fun x hx => lt_of_readsAt (readsAt_of_mem_findAll hx),
    (hleft.pairwise fun _ _ _ => lt_of_readsAt).2⟩
  obtain ⟨before, front, rest, hs, -, hstart, hstop⟩ := readsAt_of_mem_findAll hx
  exact ⟨before, front, rest, hs, hstart, hstop⟩

/-- A scan for what stands in a text finds the first ones, and this is the only way to list them. -/
theorem Text.Recogniser.leftmost_iff {r : Recogniser α} {Stands : α → Nat → Nat → Prop}
    (h : ∀ x start stop, r.ReadsAt s x start stop ↔ Stands x start stop)
    (found : List (α × Nat × Nat)) : Leftmost Stands 0 found ↔ found = r.findAll s := by
  constructor
  · intro hfound
    have hread := hfound.congr fun x start stop => (h x start stop).symm
    exact hread.unique (r.functional_readsAt s) (r.leftmost_findAll s)
  · rintro rfl
    exact (r.leftmost_findAll s).congr h

/-- **What the scans find.** In any text, the scan for placeholders finds all of them. The scans for
loops and for conditionals find the first one in the text, then the first one behind its end, and so on
until none is left. What is found is in order, on character boundaries and without overlaps. -/
theorem scans_find_leftmost (s : List Char) :
    ((∀ path start stop, (path, start, stop) ∈ placeholderPath.findAll s ↔
        PlaceholderAt s path start stop) ∧ InOrder s (placeholderPath.findAll s)) ∧
      ((∀ found, Leftmost (LoopAt s) 0 found ↔ found = LoopBlock.recogniser.findAll s) ∧
        InOrder s (LoopBlock.recogniser.findAll s)) ∧
      ((∀ found, Leftmost (ConditionalAt s) 0 found ↔ found = ConditionalBlock.recogniser.findAll s) ∧
        InOrder s (ConditionalBlock.recogniser.findAll s)) := by
  refine ⟨⟨fun path start stop => ⟨fun hmem => ?_, fun hstands => ?_⟩,
      placeholderPath.inOrder_findAll s⟩,
    ⟨Recogniser.leftmost_iff fun _ _ _ => readsAt_loop_iff, LoopBlock.recogniser.inOrder_findAll s⟩,
    ⟨Recogniser.leftmost_iff fun _ _ _ => readsAt_conditional_iff,
      ConditionalBlock.recogniser.inOrder_findAll s⟩⟩
  · exact readsAt_placeholder_iff.1 (Recogniser.readsAt_of_mem_findAll hmem)
  · -- no placeholder begins inside another one, so that none is passed over
    have hleft := (placeholderPath.leftmost_findAll s).congr fun _ _ _ => readsAt_placeholder_iff
    have hfun : Leftmost.Functional (PlaceholderAt s) := by
      intro x x' start stop stop' hx hx'
      exact placeholderPath.functional_readsAt s _ _ _ _ _ (readsAt_placeholder_iff.2 hx)
        (readsAt_placeholder_iff.2 hx')
    exact hleft.mem_of_apart hfun (placeholders_apart s) hstands (Nat.zero_le start)

end Stencil
