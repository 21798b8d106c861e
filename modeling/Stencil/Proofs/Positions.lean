import Stencil.Template.Location

/-!
# Lines, columns and byte positions

What stands in front of a place in a text is some rows with a line feed behind each, and the beginning of
one more row. The number of these rows is the line and the length of the beginning is the column, both
less one; so the two give back the byte position, and both grow with it.

* `exists_rows`: the front of a text as rows.
* `lineAt_rows`, `columnAt_rows`: line and column behind rows.
* `StandsAt`: which byte position a line and a column stand for.
* `standsAt_lineAt`, `StandsAt.unique`: they stand for the position they are the line and the column of,
  and for no other one.
* `lt_of_lt`: an earlier position is on an earlier line, or in an earlier column of the same line.
-/

namespace Stencil

open Text

variable {s front back mid row row' : List Char} {above : List (List Char)}
  {line column offset offset' : Nat}

/-- A byte position that is not inside a character, and not past the end. -/
def IsBoundary (s : List Char) (offset : Nat) : Prop :=
  ∃ front back, s = front ++ back ∧ size front = offset

/-- Rows with a line feed behind each. -/
def ended (rows : List (List Char)) : List Char := rows.flatMap (· ++ [lineFeed])

/-- **Which byte position a line and a column stand for**: it is the size of all rows above with their
line feeds, and of the characters of the next row in front of the column. -/
def StandsAt (s : List Char) (line column offset : Nat) : Prop :=
  ∃ above row below, s.splitOn lineFeed = above ++ row :: below ∧ line = above.length + 1 ∧
    1 ≤ column ∧ column ≤ row.length + 1 ∧
      offset = size (ended above) + size (row.take (column - 1))

/-! ### Rows -/

theorem ended_cons (row : List Char) (rows : List (List Char)) :
    ended (row :: rows) = row ++ lineFeed :: ended rows := by
  simp [ended]

/-- **The front of a text** is rows, and the beginning of one more. -/
theorem exists_rows (front : List Char) : ∃ above row, front = ended above ++ row ∧
    (∀ r ∈ above, lineFeed ∉ r) ∧ lineFeed ∉ row := by
  induction front with
  | nil => exact ⟨[], [], rfl, nofun, nofun⟩
  | cons c front ih =>
    obtain ⟨above, row, rfl, habove, hrow⟩ := ih
    by_cases hc : c = lineFeed
    · subst hc
      refine ⟨[] :: above, row, by simp [ended_cons], ?_, hrow⟩
      exact List.forall_mem_cons.2 ⟨List.not_mem_nil, habove⟩
    · cases above with
      | nil => exact ⟨[], c :: row, rfl, nofun, List.not_mem_cons_of_ne_of_not_mem (Ne.symm hc) hrow⟩
      | cons first above =>
        obtain ⟨hfirst, hrest⟩ := List.forall_mem_cons.1 habove
        refine ⟨(c :: first) :: above, row, by simp [ended_cons], ?_, hrow⟩
        exact List.forall_mem_cons.2
          ⟨List.not_mem_cons_of_ne_of_not_mem (Ne.symm hc) hfirst, hrest⟩

/-- Lines are split where they end. -/
theorem splitOn_ended (habove : ∀ r ∈ above, lineFeed ∉ r) (s : List Char) :
    (ended above ++ s).splitOn lineFeed = above ++ s.splitOn lineFeed := by
  induction above with
  | nil => rfl
  | cons row above ih =>
    obtain ⟨hrow, hrest⟩ := List.forall_mem_cons.1 habove
    rw [ended_cons, List.append_assoc, List.cons_append, List.splitOn_append_cons_self_of_not_mem hrow,
      ih hrest]
    rfl

/-- A beginning without a line feed is one of the first row. -/
theorem exists_splitOn_append (hrow : lineFeed ∉ row) (s : List Char) :
    ∃ more below, (row ++ s).splitOn lineFeed = (row ++ more) :: below := by
  induction row with
  | nil =>
    obtain ⟨first, below, hsplit⟩ := List.exists_cons_of_ne_nil (List.splitOn_ne_nil lineFeed s)
    exact ⟨first, below, hsplit⟩
  | cons c row ih =>
    obtain ⟨hc, hrest⟩ := not_or.1 (mt List.mem_cons.2 hrow)
    obtain ⟨more, below, hsplit⟩ := ih hrest
    refine ⟨more, below, ?_⟩
    rw [List.cons_append, List.splitOn_cons_eq_if_modifyHead, hsplit,
      if_neg (fun he => hc (beq_iff_eq.1 he).symm), List.modifyHead_cons]
    rfl

/-- As many line feeds as lines that are ended. -/
theorem count_ended (habove : ∀ r ∈ above, lineFeed ∉ r) :
    (ended above).count lineFeed = above.length := by
  induction above with
  | nil => rfl
  | cons row above ih =>
    obtain ⟨hrow, hrest⟩ := List.forall_mem_cons.1 habove
    rw [ended_cons, List.count_append, List.count_cons_self, ih hrest, List.count_eq_zero_of_not_mem hrow,
      List.length_cons]
    omega

/-- What stands behind the last line feed is the last line. -/
theorem lastLine_ended (above : List (List Char)) (hrow : lineFeed ∉ row) :
    lastLine (ended above ++ row) = row := by
  have hkept : ∀ c ∈ row.reverse, (c != lineFeed) = true := by
    intro c hc
    have hne : c ≠ lineFeed := fun he => hrow (he ▸ List.mem_reverse.1 hc)
    exact bne_iff_ne.2 hne
  have hstop : (ended above).reverse.takeWhile (· != lineFeed) = [] := by
    rcases List.eq_nil_or_concat above with rfl | ⟨init, last, rfl⟩
    · rfl
    · simp [ended]
  rw [lastLine, List.reverse_append, List.takeWhile_append_of_pos hkept, hstop, List.append_nil,
    List.reverse_reverse]

/-! ### Locations -/

/-- What stands before a byte position. -/
theorem before_append (front back : List Char) :
    Location.before (front ++ back) (size front) = front := by
  have hmin : min (size front) (size (front ++ back)) = size front := by
    rw [size_append]
    omega
  rw [Location.before, hmin, cut?_eq_some_iff.2 ⟨rfl, rfl⟩]

/-- Lines are counted from one. -/
theorem lineAt_rows (habove : ∀ r ∈ above, lineFeed ∉ r) (hrow : lineFeed ∉ row)
    (back : List Char) :
    Location.lineAt (ended above ++ row ++ back) (size (ended above ++ row)) = above.length + 1 := by
  rw [Location.lineAt, before_append, List.count_append, count_ended habove,
    List.count_eq_zero_of_not_mem hrow]

/-- Columns are counted from one. -/
theorem columnAt_rows (above : List (List Char)) (hrow : lineFeed ∉ row) (back : List Char) :
    Location.columnAt (ended above ++ row ++ back) (size (ended above ++ row)) = row.length + 1 := by
  rw [Location.columnAt, before_append, lastLine_ended above hrow]

/-- **A line and a column stand for the position they belong to.** -/
theorem standsAt_lineAt (h : IsBoundary s offset) :
    StandsAt s (Location.lineAt s offset) (Location.columnAt s offset) offset := by
  obtain ⟨front, back, rfl, rfl⟩ := h
  obtain ⟨above, row, rfl, habove, hrow⟩ := exists_rows front
  obtain ⟨more, below, hsplit⟩ := exists_splitOn_append hrow back
  rw [lineAt_rows habove hrow, columnAt_rows above hrow]
  refine ⟨above, row ++ more, below, ?_, rfl, Nat.le_add_left 1 _, ?_, ?_⟩
  · rw [List.append_assoc, splitOn_ended habove, hsplit]
  · rw [List.length_append]
    omega
  · rw [Nat.add_sub_cancel, List.take_left, size_append]

/-- **No other position** has the same line and column. -/
theorem StandsAt.unique (h : StandsAt s line column offset) (h' : StandsAt s line column offset') :
    offset = offset' := by
  obtain ⟨above, row, below, hsplit, hline, -, -, rfl⟩ := h
  obtain ⟨above', row', below', hsplit', hline', -, -, rfl⟩ := h'
  have hlength : above.length = above'.length := by omega
  obtain ⟨rfl, hrows⟩ := List.append_inj (hsplit.symm.trans hsplit') hlength
  obtain ⟨rfl, -⟩ := List.cons.inj hrows
  rfl

theorem length_lastLine_append (front : List Char) (hmid : lineFeed ∉ mid) :
    (lastLine (front ++ mid)).length = (lastLine front).length + mid.length := by
  obtain ⟨above, row, rfl, -, hrow⟩ := exists_rows front
  have hboth : lineFeed ∉ row ++ mid := by simp [hrow, hmid]
  rw [List.append_assoc, lastLine_ended above hboth, lastLine_ended above hrow, List.length_append]

/-- **An earlier position** is on an earlier line, or in an earlier column of the same line. -/
theorem lt_of_lt (h : IsBoundary s offset) (h' : IsBoundary s offset') (hlt : offset < offset') :
    Location.lineAt s offset < Location.lineAt s offset' ∨
      Location.lineAt s offset = Location.lineAt s offset' ∧
        Location.columnAt s offset < Location.columnAt s offset' := by
  obtain ⟨front, back, rfl, rfl⟩ := h
  obtain ⟨front', back', hs, rfl⟩ := h'
  -- the longer front part goes on from the shorter one
  obtain ⟨mid, rfl⟩ : ∃ mid, front' = front ++ mid := by
    rcases List.append_eq_append_iff.1 hs with ⟨mid, hmid, -⟩ | ⟨mid, hmid, -⟩
    · exact ⟨mid, hmid⟩
    · rw [hmid, size_append] at hlt
      omega
  have hmid : mid ≠ [] := by
    rintro rfl
    rw [List.append_nil] at hlt
    omega
  have hfront := before_append front back
  have hfront' := before_append (front ++ mid) back'
  rw [← hs] at hfront'
  rw [Location.lineAt, Location.lineAt, Location.columnAt, Location.columnAt, hfront, hfront',
    List.count_append]
  by_cases hfeed : lineFeed ∈ mid
  · have hpos : 0 < mid.count lineFeed := List.count_pos_iff.2 hfeed
    left
    omega
  · have hlength : 0 < mid.length := List.length_pos_iff.2 hmid
    right
    rw [List.count_eq_zero_of_not_mem hfeed, length_lastLine_append front hfeed]
    omega

end Stencil
