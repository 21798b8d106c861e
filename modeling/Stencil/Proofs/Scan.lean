import Stencil.Text.Scan

/-!
# Scanning past silent text

A scan is determined by what is read at each place of a text. A stretch of text is silent where
nothing can be read at any place inside it; a scan copies it and goes on behind it, and a search does
not stop in it. Together with the equation for a construct that is read at the front, this is all
that later modules use of scans and searches.

* `replace_of_read`, `replace_append_of_silent`: the two equations of a replacing scan.
* `split?_append_of_silent`, `split?_of_after?`: the same for the search for a piece of text.
* `pieces_of_silent`: a silent text is one piece of plain text.
* `cut_pieces`: the pieces of a scan are silent, or are read where they stand.
* `findFrom_of_read`, `findFrom_append_of_silent`: the two equations of a scan with byte positions.
* `readsAt_of_mem_findAll`, `findAll_eq_nil_iff`: what is found was read, and nothing is found in silent
  texts only.
* `replace_append_of_apart`, `split?_append_of_apart`: where nothing reaches across the border of two
  texts, scans and searches go through them one after the other.
-/

namespace Stencil.Text

variable {α β : Type}

/-- **Silence.** With `t` behind it, nothing is read at any place inside `s`. -/
def Silent (read : List Char → Option β) (s t : List Char) : Prop :=
  ∀ u, u ≠ [] → u <:+ s → read (u ++ t) = none

/-- Nothing is read inside an empty text. -/
theorem silent_nil (read : List Char → Option β) (t : List Char) : Silent read [] t := by
  intro u hu hs
  exact absurd (List.suffix_nil.1 hs) hu

/-- Nothing is read inside a text where nothing is read at its beginning, nor inside the rest of it. -/
theorem silent_cons {read : List Char → Option β} {c : Char} {s t : List Char} :
    Silent read (c :: s) t ↔ read (c :: (s ++ t)) = none ∧ Silent read s t := by
  constructor
  · intro h
    refine ⟨h _ (List.cons_ne_nil _ _) (List.suffix_refl _), fun u hu hs => h u hu ?_⟩
    exact hs.trans (List.suffix_cons c s)
  · rintro ⟨hc, hs⟩ u hu hsuf
    rcases List.suffix_cons_iff.1 hsuf with rfl | hsuf
    · exact hc
    · exact hs u hu hsuf

/-- Nothing is read inside a text whose two parts are silent where they stand. -/
theorem Silent.append {read : List Char → Option β} {a b t : List Char}
    (ha : Silent read a (b ++ t)) (hb : Silent read b t) : Silent read (a ++ b) t := by
  induction a with
  | nil => exact hb
  | cons c a ih =>
    obtain ⟨hc, ha⟩ := silent_cons.1 ha
    exact silent_cons.2 ⟨by simpa using hc, ih ha⟩

/-- What is silent for one way of reading is silent for every way that reads less. -/
theorem Silent.mono {read : List Char → Option α} {read' : List Char → Option β} {s t : List Char}
    (h : Silent read s t) (hle : ∀ u, read u = none → read' u = none) : Silent read' s t :=
  fun u hu hs => hle _ (h u hu hs)

/-! ### Replacing scans -/

namespace Piece

/-- Pieces are put together one after the other. -/
theorem splice_append (f : α → List Char → List Char) (ps qs : List (Piece α)) :
    splice f (ps ++ qs) = splice f ps ++ splice f qs := List.flatMap_append

theorem splice_ofSeen (f : α → List Char → List Char) (seen : List Char) :
    splice f (ofSeen seen) = seen.reverse := by
  cases seen <;> simp [ofSeen, splice]

end Piece

namespace Recogniser

variable {r : Recogniser α} {s t front rest : List Char} {a : α} {c : Char}

theorem read_nil (r : Recogniser α) : r.read [] = none := by
  cases h : r.read [] with
  | none => rfl
  | some x =>
    obtain ⟨a, front, rest⟩ := x
    have := r.faithful h
    exact absurd (List.append_eq_nil_iff.1 this.symm).1 (r.advances h)

/-- Replacing is putting pieces together again, those found as they are replaced. -/
theorem splice_piecesFrom (r : Recogniser α) (f : α → List Char → List Char) (seen s : List Char) :
    Piece.splice f (r.piecesFrom seen s) = seen.reverse ++ r.replace f s := by
  -- `seen` is plain text that stays plain
  induction s generalizing seen with
  | nil => simp [replace, pieces, piecesFrom, Piece.splice_ofSeen]
  | cons c s ih =>
    cases h : r.read (c :: s) with
    | none =>
      rw [replace, pieces, pieces_cons_none r h, pieces_cons_none r h, ih, ih]
      simp
    | some x =>
      obtain ⟨a, front, rest⟩ := x
      rw [replace, pieces, pieces_cons_some r h, pieces_cons_some r h, Piece.splice_append,
        Piece.splice_append, Piece.splice_ofSeen, Piece.splice_ofSeen]
      simp

theorem replace_nil (r : Recogniser α) (f : α → List Char → List Char) : r.replace f [] = [] := by
  simp [replace, pieces, piecesFrom, Piece.splice_ofSeen]

/-- A character where nothing is found stays. -/
theorem replace_cons_of_none (f : α → List Char → List Char) (h : r.read (c :: s) = none) :
    r.replace f (c :: s) = c :: r.replace f s := by
  rw [replace, pieces, pieces_cons_none r h, splice_piecesFrom]
  simp

/-- What is found is replaced, and the scan goes on behind it. -/
theorem replace_of_read (f : α → List Char → List Char) (h : r.read s = some (a, front, rest)) :
    r.replace f s = f a front ++ r.replace f rest := by
  cases s with
  | nil => rw [read_nil] at h; cases h
  | cons c s =>
    rw [replace, pieces, pieces_cons_some r h, Piece.splice_append, Piece.splice_ofSeen]
    simp [Piece.splice, replace]

/-- A text in which nothing is found stays. -/
theorem replace_append_of_silent (f : α → List Char → List Char) (h : Silent r.read s t) :
    r.replace f (s ++ t) = s ++ r.replace f t := by
  induction s with
  | nil => rfl
  | cons c s ih =>
    obtain ⟨hc, hs⟩ := silent_cons.1 h
    rw [List.cons_append, replace_cons_of_none f hc, ih hs, List.cons_append]

theorem piecesFrom_of_silent (seen : List Char) (h : Silent r.read s []) :
    r.piecesFrom seen s = Piece.ofSeen (s.reverse ++ seen) := by
  induction s generalizing seen with
  | nil => simp [piecesFrom]
  | cons c s ih =>
    obtain ⟨hc, hs⟩ := silent_cons.1 h
    rw [pieces_cons_none r (by simpa using hc), ih _ hs]
    simp

/-- A text in which nothing is found is one piece. -/
theorem pieces_of_silent (h : Silent r.read s []) : r.pieces s = Piece.ofSeen s.reverse := by
  rw [pieces, piecesFrom_of_silent [] h, List.append_nil]

/-! ### Where constructs are found -/

/-- **How a scan cuts a text.** In front of what follows them, plain pieces are silent, and constructs
are read where they stand. -/
inductive Cut (r : Recogniser α) : List (Piece α) → List Char → Prop where
  | nil : Cut r [] []
  | plain {text rest : List Char} {ps : List (Piece α)} :
    Silent r.read text rest → Cut r ps rest → Cut r (.plain text :: ps) (text ++ rest)
  | found {front rest : List Char} {a : α} {ps : List (Piece α)} :
    r.read (front ++ rest) = some (a, front, rest) → Cut r ps rest →
      Cut r (.found a front :: ps) (front ++ rest)

variable {ps qs : List (Piece α)} {n start stop : Nat}

/-- A plain piece in front of a cut, where nothing is found inside it. -/
theorem cut_ofSeen {seen : List Char} (h : Silent r.read seen.reverse s) (hs : r.Cut ps s) :
    r.Cut (Piece.ofSeen seen ++ ps) (seen.reverse ++ s) := by
  cases seen with
  | nil => exact hs
  | cons c seen => exact .plain h hs

/-- The pieces that the scan makes, from any state of it. -/
theorem cut_piecesFrom {seen : List Char} (h : Silent r.read seen.reverse s) :
    r.Cut (r.piecesFrom seen s) (seen.reverse ++ s) := by
  -- the text gathered so far stays silent in front of what is left
  fun_induction piecesFrom r seen s with
  | case1 seen =>
    have hcut := cut_ofSeen h .nil
    rwa [List.append_nil] at hcut
  | case2 seen c s a front rest hread ih =>
    have hs := r.faithful hread
    rw [hs] at h hread ⊢
    exact cut_ofSeen h (.found hread (ih (silent_nil _ _)))
  | case3 seen c s hread ih =>
    have hc : Silent r.read [c] s := silent_cons.2 ⟨hread, silent_nil _ _⟩
    rw [List.reverse_cons, List.append_assoc] at ih
    exact ih (Silent.append h hc)

theorem cut_pieces (r : Recogniser α) (s : List Char) : r.Cut (r.pieces s) s :=
  cut_piecesFrom (silent_nil _ _)

namespace Cut

/-- The pieces of a text make up the text. -/
theorem flatten (h : r.Cut ps s) : ps.flatMap Piece.text = s := by
  induction h with
  | nil => rfl
  | plain _ _ ih => rw [List.flatMap_cons, ih]; rfl
  | found _ _ ih => rw [List.flatMap_cons, ih]; rfl

/-- A text in which nothing is found is silent. -/
theorem silent (h : r.Cut ps s) (hps : ∀ a front, .found a front ∉ ps) : Silent r.read s [] := by
  induction h with
  | nil => exact silent_nil _ _
  | @plain text rest ps htext _ ih =>
    have hrest := ih fun a front hm => hps a front (List.mem_cons_of_mem _ hm)
    exact Silent.append (by rwa [List.append_nil]) hrest
  | @found front rest a ps => exact absurd List.mem_cons_self (hps a front)

/-- The last pieces of a cut are a cut of what stands behind the first ones. -/
theorem of_append (h : r.Cut (ps ++ qs) s) :
    ∃ t, s = ps.flatMap Piece.text ++ t ∧ r.Cut qs t := by
  induction ps generalizing s with
  | nil => exact ⟨s, rfl, h⟩
  | cons p ps ih =>
    cases h with
    | plain _ h =>
      obtain ⟨t, rfl, ht⟩ := ih h
      exact ⟨t, (List.append_assoc _ _ _).symm, ht⟩
    | found _ h =>
      obtain ⟨t, rfl, ht⟩ := ih h
      exact ⟨t, (List.append_assoc _ _ _).symm, ht⟩

/-- What a scan finds was read at its place. -/
theorem read (h : r.Cut (ps ++ .found a front :: qs) s) : ∃ rest,
    s = ps.flatMap Piece.text ++ (front ++ rest) ∧ r.read (front ++ rest) = some (a, front, rest) := by
  obtain ⟨t, hs, ht⟩ := h.of_append
  cases ht with
  | found hread _ => exact ⟨_, hs, hread⟩

end Cut

end Recogniser

/-! ### Byte positions -/

namespace Piece

variable {p : Piece α} {ps qs : List (Piece α)} {n start stop : Nat}

/-- Pieces are located one after the other, each where the one before it ends. -/
theorem located_append (n : Nat) (ps qs : List (Piece α)) :
    located n (ps ++ qs) = located n ps ++ located (n + size (ps.flatMap text)) qs := by
  induction ps generalizing n with
  | nil => rfl
  | cons p ps ih => simp [located, ih, Nat.add_assoc]

/-- A piece stands behind the text of the pieces in front of it. -/
theorem mem_located_iff : (p, start, stop) ∈ located n ps ↔ ∃ before behind,
    ps = before ++ p :: behind ∧ start = n + size (before.flatMap text) ∧
      stop = start + size p.text := by
  constructor
  · intro h
    induction ps generalizing n with
    | nil => cases h
    | cons q ps ih =>
      rcases List.mem_cons.1 h with he | h
      · obtain ⟨rfl, rfl, rfl⟩ : p = q ∧ start = n ∧ stop = n + size q.text := by simpa using he
        exact ⟨[], ps, rfl, rfl, rfl⟩
      · obtain ⟨before, behind, rfl, rfl, rfl⟩ := ih h
        exact ⟨q :: before, behind, rfl, by simp [Nat.add_assoc], rfl⟩
  · rintro ⟨before, behind, rfl, rfl, rfl⟩
    rw [located_append]
    exact List.mem_append_right _ List.mem_cons_self

/-- The constructs among some pieces, with byte positions, the first piece starting at `n`. -/
def constructs (n : Nat) (ps : List (Piece α)) : List (α × Nat × Nat) :=
  (located n ps).filterMap fun
    | (.found value _, start, stop) => some (value, start, stop)
    | (.plain _, _) => none

/-- What is found in pieces is found in the first ones or in the last ones. -/
theorem constructs_append (n : Nat) (ps qs : List (Piece α)) :
    constructs n (ps ++ qs) = constructs n ps ++ constructs (n + size (ps.flatMap text)) qs := by
  rw [constructs, located_append, List.filterMap_append]
  rfl

theorem constructs_ofSeen (n : Nat) (seen : List Char) :
    constructs n (ofSeen seen : List (Piece α)) = [] := by
  cases seen <;> rfl

/-- What is found is one of the pieces, at the place of that piece. -/
theorem mem_constructs_iff {a : α} : (a, start, stop) ∈ constructs n ps ↔
    ∃ front, (.found a front, start, stop) ∈ located n ps := by
  rw [constructs, List.mem_filterMap]
  constructor
  · rintro ⟨⟨p, start', stop'⟩, hmem, he⟩
    cases p with
    | plain text => cases he
    | found a' front =>
      cases he
      exact ⟨front, hmem⟩
  · rintro ⟨front, hmem⟩
    exact ⟨_, hmem, rfl⟩

end Piece

namespace Recogniser

variable {r : Recogniser α} {s t front rest : List Char} {a : α} {n start stop : Nat}

/-- Every construct that `r` finds in a text that begins at byte position `n`. -/
def findFrom (r : Recogniser α) (n : Nat) (s : List Char) : List (α × Nat × Nat) :=
  Piece.constructs n (r.pieces s)

theorem findAll_eq_findFrom (r : Recogniser α) (s : List Char) : r.findAll s = r.findFrom 0 s := rfl

/-- What is found among the pieces of a text is what is found in the text. -/
theorem constructs_piecesFrom (r : Recogniser α) (n : Nat) (seen s : List Char) :
    Piece.constructs n (r.piecesFrom seen s) = r.findFrom (n + size seen.reverse) s := by
  induction s generalizing n seen with
  | nil => simp [findFrom, pieces, piecesFrom, Piece.constructs_ofSeen]
  | cons c s ih =>
    cases h : r.read (c :: s) with
    | none =>
      rw [findFrom, pieces, pieces_cons_none r h, pieces_cons_none r h, ih, ih]
      simp [Nat.add_assoc]
    | some x =>
      obtain ⟨a, front, rest⟩ := x
      rw [findFrom, pieces, pieces_cons_some r h, pieces_cons_some r h, Piece.constructs_append,
        Piece.constructs_append, Piece.constructs_ofSeen, Piece.constructs_ofSeen,
        Piece.flatten_ofSeen, Piece.flatten_ofSeen]
      simp

theorem findFrom_nil (r : Recogniser α) (n : Nat) : r.findFrom n [] = [] := by
  simp [findFrom, pieces, piecesFrom, Piece.constructs_ofSeen]

/-- What stands first is found first, and the rest behind it. -/
theorem findFrom_of_read (n : Nat) (h : r.read s = some (a, front, rest)) :
    r.findFrom n s = (a, n, n + size front) :: r.findFrom (n + size front) rest := by
  cases s with
  | nil => rw [read_nil] at h; cases h
  | cons c s => rw [findFrom, pieces, pieces_cons_some r h]; rfl

/-- A text in which nothing is found only moves what is found behind it. -/
theorem findFrom_append_of_silent (n : Nat) (h : Silent r.read s t) :
    r.findFrom n (s ++ t) = r.findFrom (n + size s) t := by
  induction s generalizing n with
  | nil => rfl
  | cons c s ih =>
    obtain ⟨hc, hs⟩ := silent_cons.1 h
    rw [List.cons_append, findFrom, pieces, pieces_cons_none r hc, constructs_piecesFrom, ih _ hs]
    simp [Nat.add_assoc]

/-- Where a recogniser reads a construct in a text, with the byte positions of its start and end. -/
def ReadsAt (r : Recogniser α) (s : List Char) (a : α) (start stop : Nat) : Prop :=
  ∃ before front rest, s = before ++ (front ++ rest) ∧ r.read (front ++ rest) = some (a, front, rest) ∧
    start = size before ∧ stop = size before + size front

/-- **What is found was read** at its byte positions. -/
theorem readsAt_of_mem_findAll (h : (a, start, stop) ∈ r.findAll s) : r.ReadsAt s a start stop := by
  obtain ⟨front, hmem⟩ := Piece.mem_constructs_iff.1 h
  obtain ⟨before, behind, hps, rfl, rfl⟩ := Piece.mem_located_iff.1 hmem
  obtain ⟨rest, hs, hread⟩ := (hps ▸ r.cut_pieces s).read
  rw [Nat.zero_add]
  exact ⟨_, front, rest, hs, hread, rfl, rfl⟩

/-- Nothing is found exactly where nothing can be read. -/
theorem findAll_eq_nil_iff : r.findAll s = [] ↔ Silent r.read s [] := by
  constructor
  · intro h
    refine (r.cut_pieces s).silent fun a front hmem => ?_
    obtain ⟨before, behind, hps⟩ := List.append_of_mem hmem
    have hfound : (a, _, _) ∈ r.findAll s :=
      Piece.mem_constructs_iff.2 ⟨front, Piece.mem_located_iff.2 ⟨before, behind, hps, rfl, rfl⟩⟩
    rw [h] at hfound
    cases hfound
  · intro h
    have hfind := findFrom_append_of_silent 0 h
    rw [List.append_nil, findFrom_nil] at hfind
    exact (findAll_eq_findFrom r s).trans hfind

end Recogniser

/-! ### Searches -/

variable {needle seen s t : List Char}

/-- What was seen before the split goes in front of it. -/
theorem split?_seen (needle seen s : List Char) :
    split? needle seen s = (split? needle [] s).map fun (a, b) => (seen.reverse ++ a, b) := by
  induction s generalizing seen with
  | nil => simp [split?, Option.map_map, Function.comp_def]
  | cons c s ih =>
    rw [split?, split?]
    cases after? needle (c :: s) with
    | some t => simp
    | none => rw [ih, ih [c]]; simp [Option.map_map, Function.comp_def]

/-- A text that begins with the needle is split there. -/
theorem split?_of_after? (hs : s ≠ []) (h : after? needle s = some t) :
    split? needle [] s = some ([], t) := by
  cases s with
  | nil => exact absurd rfl hs
  | cons c s => rw [split?, h]; rfl

/-- A text without the needle goes in front of the split. -/
theorem split?_append_of_silent (h : Silent (after? needle) s t) :
    split? needle [] (s ++ t) = (split? needle [] t).map fun (a, b) => (s ++ a, b) := by
  induction s with
  | nil => simp
  | cons c s ih =>
    obtain ⟨hc, hs⟩ := silent_cons.1 h
    rw [List.cons_append, split?, hc, split?_seen, ih hs]
    simp [Option.map_map, Function.comp_def]

theorem split?_nil (hn : needle ≠ []) : split? needle [] [] = none := by
  cases needle with
  | nil => exact absurd rfl hn
  | cons c needle => rfl

/-- A text without the needle stays as it is. -/
theorem replaceFirst_of_not_infix {replacement : List Char} (h : ¬ needle <:+: s) :
    replaceFirst needle replacement s = s := by
  unfold replaceFirst
  cases hsplit : split? needle [] s with
  | none => rfl
  | some x =>
    obtain ⟨a, b⟩ := x
    exact absurd ⟨a, b, (split?_append hsplit).symm⟩ h

/-! ### Texts that stand apart -/

variable {p : Reader α} {r : Recogniser α} {u w : List Char}

/-- What is read where more text follows behind what is left. -/
def withBehind (t : List Char) : α × List Char × List Char → α × List Char × List Char :=
  fun (a, front, rest) => (a, front, rest ++ t)

/-- **Nothing reaches across the border of two texts**: at each place of `s` the reader finds the same
with `t` behind `s` as without. -/
def Apart (p : Reader α) (s t : List Char) : Prop :=
  ∀ u, u ≠ [] → u <:+ s → p.read (u ++ t) = (p.read u).map (withBehind t)

theorem apart_nil (p : Reader α) (t : List Char) : Apart p [] t := by
  intro u hu hs
  exact absurd (List.suffix_nil.1 hs) hu

/-- What holds of a text holds of the end of it. -/
theorem Apart.of_suffix (h : Apart p s t) (hw : w <:+ s) : Apart p w t :=
  fun u hu hs => h u hu (hs.trans hw)

/-- One more part in front, if reading from inside it does not look past the text. -/
theorem Apart.append (hw : ∀ u, u ≠ [] → u <:+ w →
      p.read (u ++ (s ++ t)) = (p.read (u ++ s)).map (withBehind t)) (hs : Apart p s t) :
    Apart p (w ++ s) t := by
  intro u hu hsuf
  obtain ⟨x, hx⟩ := hsuf
  rcases List.append_eq_append_iff.1 hx with ⟨y, hy, hus⟩ | ⟨y, hy, hsu⟩
  · -- the place is in `w`, or at its end
    by_cases hne : y = []
    · rw [hus, hne, List.nil_append] at hu ⊢
      exact hs s hu (List.suffix_refl s)
    · have hread := hw y hne ⟨x, hy.symm⟩
      rw [← List.append_assoc, ← hus] at hread
      exact hread
  · exact hs u hu ⟨y, hsu.symm⟩

/-- A replacing scan goes over the two texts one after the other. -/
theorem Recogniser.replace_append_of_apart (f : α → List Char → List Char)
    (h : Apart r.toReader s t) : r.replace f (s ++ t) = r.replace f s ++ r.replace f t := by
  -- on the length, as a scan goes on behind what it finds
  induction hn : s.length using Nat.strongRecOn generalizing s with
  | ind n ih =>
    subst hn
    cases s with
    | nil => rw [r.replace_nil]; rfl
    | cons c s =>
      have hread := h (c :: s) (List.cons_ne_nil c s) (List.suffix_refl _)
      cases hfound : r.read (c :: s) with
      | none =>
        rw [hfound] at hread
        have hrest := ih s.length (Nat.lt_succ_self _) (h.of_suffix (List.suffix_cons c s)) rfl
        have hnone : r.read (c :: (s ++ t)) = none := hread
        rw [List.cons_append, replace_cons_of_none f hnone, replace_cons_of_none f hfound, hrest,
          List.cons_append]
      | some x =>
        obtain ⟨a, front, rest⟩ := x
        rw [hfound] at hread
        have hsuffix : rest <:+ c :: s := ⟨front, (r.faithful hfound).symm⟩
        have hrest := ih rest.length (r.length_lt hfound) (h.of_suffix hsuffix) rfl
        rw [replace_of_read f hread, replace_of_read f hfound, hrest, List.append_assoc]

/-- The needle is found at the same places, whatever stands behind. -/
theorem after?_append_of_apart (h : Apart (Reader.exactly needle) s t) (hu : u ≠ []) (hs : u <:+ s) :
    after? needle (u ++ t) = (after? needle u).map (· ++ t) := by
  have hread := h u hu hs
  simp only [Reader.exactly, Option.map_map] at hread
  cases hnear : after? needle u with
  | none =>
    rw [hnear, Option.map_none, Option.map_eq_none_iff] at hread
    exact hread
  | some rest =>
    rw [hnear, Option.map_some, Option.map_eq_some_iff] at hread
    obtain ⟨rest', hfar, he⟩ := hread
    rw [hfar, Option.map_some]
    exact congrArg some (congrArg (fun x => x.2.2) he)

/-- A search goes through the two texts one after the other. -/
theorem split?_append_of_apart (hn : needle ≠ []) (h : Apart (Reader.exactly needle) s t) :
    split? needle [] (s ++ t) = ((split? needle [] s).map fun (a, b) => (a, b ++ t)).or
      ((split? needle [] t).map fun (a, b) => (s ++ a, b)) := by
  induction s with
  | nil => simp [split?_nil hn]
  | cons c s ih =>
    have hread := after?_append_of_apart h (List.cons_ne_nil c s) (List.suffix_refl _)
    have hrest := ih (h.of_suffix (List.suffix_cons c s))
    rw [List.cons_append] at hread ⊢
    cases hnear : after? needle (c :: s) with
    | none =>
      rw [hnear] at hread
      rw [split?, hread, Option.map_none, split?, hnear, split?_seen, split?_seen needle [c] s, hrest]
      simp [Option.map_or, Option.map_map, Function.comp_def]
    | some rest =>
      rw [hnear] at hread
      rw [split?, hread, split?, hnear]
      rfl

end Stencil.Text
