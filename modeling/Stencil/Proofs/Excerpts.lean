import Stencil.Proofs.Positions
import Stencil.Proofs.Refusal
import Stencil.Proofs.TagKinds
import Stencil.Proofs.Tokens

/-!
# Excerpts in reports

The report of a template without a tree shows the lines around the tag at fault. That tag begins with
two opening braces, which stand on one line and are not what ends it; so whatever the line endings are,
the numbered lines have that line among them, and the braces stand in it at the column that is told.

* `lines_ended`, `exists_lines_append`: the lines behind rows, and the first line of what follows.
* `exists_line`: the line of a place behind which a tag begins.
* `mem_numbered`, `map_fst_numbered`: the numbered lines of a window.
* `excerpt_eq`: the mark in an excerpt.
* `start_of_error`: a fault is reported at the start of a tag.
* `locations_exact`: locations, and what a report shows of them.
-/

namespace Stencil

open Text

variable {s : List Char} {ls : List (List Char)} {w : Window} {n : Nat} {text : String}

/-! ### Lines -/

section Lines

variable {a row : List Char} {above : List (List Char)}

/-- A line ends at the first line feed. -/
theorem linesFrom_append (line : List Char) (hrow : lineFeed ∉ row) (rest : List Char) :
    linesFrom line (row ++ lineFeed :: rest) = closeLine (row.reverse ++ line) :: lines rest := by
  induction row generalizing line with
  | nil => simp [linesFrom, lines]
  | cons c row ih =>
    obtain ⟨hc, hrest⟩ := not_or.1 (mt List.mem_cons.2 hrow)
    rw [List.cons_append, linesFrom, if_neg (Ne.symm hc), ih (c :: line) hrest]
    simp

theorem linesFrom_of_not_mem (line : List Char) (hrow : lineFeed ∉ row) (hne : row ≠ []) :
    linesFrom line row = [line.reverse ++ row] := by
  induction row generalizing line with
  | nil => exact absurd rfl hne
  | cons c row ih =>
    obtain ⟨hc, hrest⟩ := not_or.1 (mt List.mem_cons.2 hrow)
    rw [linesFrom, if_neg (Ne.symm hc)]
    cases row with
    | nil => simp [linesFrom]
    | cons d row =>
      rw [ih (c :: line) hrest (List.cons_ne_nil d row)]
      simp

/-- Lines that are ended come one after the other. -/
theorem lines_ended (habove : ∀ r ∈ above, lineFeed ∉ r) (s : List Char) :
    lines (ended above ++ s) = above.map (fun r => closeLine r.reverse) ++ lines s := by
  induction above with
  | nil => rfl
  | cons row above ih =>
    obtain ⟨hrow, hrest⟩ := List.forall_mem_cons.1 habove
    rw [ended_cons, List.append_assoc, List.cons_append, lines, linesFrom_append [] hrow, ih hrest,
      List.append_nil]
    rfl

/-- No more than one carriage return is left out, at the very end. -/
theorem prefix_closeLine (hend : a.getLast? ≠ some '\r') (row : List Char) :
    a <+: closeLine (a ++ row).reverse := by
  rcases List.eq_nil_or_concat row with rfl | ⟨init, c, rfl⟩
  · rw [List.append_nil]
    unfold closeLine
    split
    · next line hline =>
      rw [← List.head?_reverse, hline] at hend
      exact absurd rfl hend
    · exact ⟨[], by simp⟩
  · have hreverse : (a ++ init.concat c).reverse = c :: (a ++ init).reverse := by simp
    rw [hreverse]
    unfold closeLine
    split
    · next line hline =>
      obtain ⟨-, rfl⟩ := List.cons.inj hline
      rw [List.reverse_reverse]
      exact List.prefix_append a init
    · rw [List.reverse_cons, List.reverse_reverse, List.append_assoc]
      exact List.prefix_append a _

/-- What a text begins with is on its first line, unless it has a line ending. -/
theorem exists_lines_append (ha : lineFeed ∉ a) (hne : a ≠ []) (hend : a.getLast? ≠ some '\r')
    (rest : List Char) : ∃ line below, lines (a ++ rest) = line :: below ∧ a <+: line := by
  obtain ⟨above, row, rfl, habove, hrow⟩ := exists_rows rest
  cases above with
  | nil =>
    have hboth : lineFeed ∉ a ++ row := by simp [ha, hrow]
    have hlines : lines (a ++ row) = [a ++ row] :=
      linesFrom_of_not_mem [] hboth (List.append_ne_nil_of_left_ne_nil hne row)
    exact ⟨a ++ row, [], hlines, List.prefix_append a row⟩
  | cons first above =>
    have hboth : lineFeed ∉ a ++ first := by simp [ha, (List.forall_mem_cons.1 habove).1]
    have hlines : lines (a ++ (ended (first :: above) ++ row)) =
        closeLine (a ++ first).reverse :: lines (ended above ++ row) := by
      have happend := linesFrom_append [] hboth (ended above ++ row)
      rw [List.append_nil] at happend
      rw [lines, ← happend, ended_cons]
      simp
    exact ⟨_, _, hlines, prefix_closeLine hend first⟩

/-- **The line of a place behind which a tag begins** has the tag at the column of that place. -/
theorem exists_line (front rest : List Char) :
    ∃ line, (lines (front ++ (Tag.opening ++ rest)))[
        Location.lineAt (front ++ (Tag.opening ++ rest)) (size front) - 1]? = some line ∧
      Tag.opening <+: line.drop
        (Location.columnAt (front ++ (Tag.opening ++ rest)) (size front) - 1) := by
  obtain ⟨above, row, rfl, habove, hrow⟩ := exists_rows front
  have hopening : lineFeed ∉ row ++ Tag.opening := by
    have hbraces : lineFeed ∉ Tag.opening := by decide
    simp [hrow, hbraces]
  have hend : (row ++ Tag.opening).getLast? ≠ some '\r' := by simp [Tag.opening]
  obtain ⟨line, below, hlines, hline⟩ :=
    exists_lines_append hopening (by simp [Tag.opening]) hend rest
  obtain ⟨more, rfl⟩ := hline
  refine ⟨row ++ Tag.opening ++ more, ?_, ?_⟩
  · rw [lineAt_rows habove hrow, List.append_assoc, lines_ended habove, ← List.append_assoc row, hlines]
    simp
  · rw [columnAt_rows above hrow, Nat.add_sub_cancel, List.append_assoc, List.drop_left]
    exact List.prefix_append _ _

end Lines

/-! ### Numbered lines -/

theorem length_le_size (s : List Char) : s.length ≤ size s := by
  induction s with
  | nil => exact Nat.le_refl 0
  | cons c s ih =>
    have hpos := c.utf8Size_pos
    rw [List.length_cons, size_cons]
    omega

/-- **The numbered lines of a window** are lines of the text, with their numbers. -/
theorem mem_numbered : (n, text) ∈ Location.numbered w ls ↔
    w.start < n ∧ n ≤ w.stop ∧ ls[n - 1]? = some text.toList := by
  -- a line with its number is an entry of the lines with their positions
  have hmem : (n, text) ∈ Location.numbered w ls ↔
      (text.toList, n) ∈ ((ls.take w.stop).drop w.start).zipIdx (w.start + 1) := by
    rw [Location.numbered, List.mem_map]
    constructor
    · rintro ⟨⟨line, k⟩, hline, heq⟩
      obtain ⟨rfl, rfl⟩ := Prod.mk.inj heq
      rwa [String.toList_ofList]
    · intro h
      exact ⟨(text.toList, n), h, Prod.ext rfl String.ofList_toList⟩
  rw [hmem, List.mk_mem_zipIdx_iff_le_and_getElem?_sub, List.getElem?_drop, List.getElem?_take]
  constructor
  · rintro ⟨hstart, hline⟩
    have hindex : w.start + (n - (w.start + 1)) = n - 1 := by omega
    rw [hindex] at hline
    split at hline
    · next hstop => exact ⟨hstart, by omega, hline⟩
    · cases hline
  · rintro ⟨hstart, hstop, hline⟩
    have hindex : w.start + (n - (w.start + 1)) = n - 1 := by omega
    refine ⟨hstart, ?_⟩
    rw [hindex, if_pos (by omega), hline]

/-- The lines of a window are numbered one after the other. -/
theorem map_fst_numbered (w : Window) (ls : List (List Char)) :
    (Location.numbered w ls).map Prod.fst =
      List.range' (w.start + 1) (min w.stop ls.length - w.start) := by
  have hnumber : (Prod.fst ∘ fun (p : List Char × Nat) => (p.2, String.ofList p.1)) = Prod.snd := rfl
  have hmap : (Location.numbered w ls).map Prod.fst =
      (((ls.take w.stop).drop w.start).zipIdx (w.start + 1)).map Prod.snd := by
    rw [← hnumber, ← List.map_map]
    rfl
  rw [hmap, List.zipIdx_map_snd, List.length_drop, List.length_take]

/-- The window around a line that is there has the line in it, and no more than five lines. -/
theorem exists_window {line : Nat} (hpos : 0 < line) (hline : line ≤ (lines s).length)
    (hsize : line + 3 < UInt64.size) : ∃ w : Window,
      Location.contextAround? s line Location.faultContext =
          some (Location.numbered w (lines s)) ∧
        w.start < line ∧ line ≤ w.stop ∧ w.stop ≤ w.start + 5 := by
  have hthere : ¬ (line = 0 ∨ (lines s).length < line) := by omega
  have htwo : Location.faultContext.toNat = 2 := by decide
  have hfits : line + Location.faultContext.toNat < UInt64.size := by
    rw [htwo]
    omega
  refine ⟨⟨line - 3, min (line + 2) (lines s).length⟩, ?_, ?_, ?_, ?_⟩
  · rw [Location.contextAround?, if_neg hthere, Window.of?_small hpos hline hfits, htwo]
    rfl
  · simp only
    omega
  · simp only
    omega
  · simp only
    omega

/-! ### The mark -/

/-- **A line of an excerpt as it is printed**: a mark, the number, behind as many blanks as it is
shorter than the number `last`, and the text behind a bar. -/
def printedLine (mark : String) (last : Nat) (entry : Nat × String) : String :=
  mark ++ " " ++ .ofList (List.replicate (last.repr.length - entry.1.repr.length) ' ') ++
    entry.1.repr ++ " | " ++ entry.2 ++ "\n"

/-- **An excerpt as it is printed**, with the mark `>` at one line and a blank at those above and below
it. All numbers are as wide as the last one. -/
def printedExcerpt (above : List (Nat × String)) (line : Nat × String) (below : List (Nat × String)) :
    String :=
  let last := ((line :: below).getLast (List.cons_ne_nil line below)).1
  String.join (above.map (printedLine " " last)) ++ printedLine ">" last line ++
    String.join (below.map (printedLine " " last))

namespace TemplateFault

variable {location : Location} {before after : List (Nat × String)}

/-- Each line is printed as it should be. -/
theorem row_eq_printedLine (mark : String) (last : Nat) (entry : Nat × String) :
    row last.repr.length mark entry = printedLine mark last entry := by
  apply String.toList_inj.1
  simp only [row, padded, printedLine, List.leftpad, String.toList_append, String.toList_ofList,
    String.length_toList, List.append_assoc]

/-- **The mark in an excerpt** is at the line itself and nowhere else. -/
theorem excerpt_eq (h : location.context = before ++ (location.line, text) :: after)
    (hnumbers : (location.context.map Prod.fst).Nodup) :
    excerpt location = "\n" ++ printedExcerpt before (location.line, text) after := by
  rw [h, List.map_append, List.map_cons, List.nodup_append] at hnumbers
  obtain ⟨-, hafter, hbefore⟩ := hnumbers
  -- numbers of lines are told apart, so that no other line has the mark
  have hmark : ∀ entry ∈ before ++ after, entry.1 ≠ location.line := by
    intro entry hentry heq
    rcases List.mem_append.1 hentry with hmem | hmem
    · exact hbefore _ (List.mem_map.2 ⟨entry, hmem, rfl⟩) _ List.mem_cons_self heq
    · exact (List.nodup_cons.1 hafter).1 (List.mem_map.2 ⟨entry, hmem, heq⟩)
  have hblank : ∀ last : Nat, ∀ entries ⊆ before ++ after,
      entries.map (fun entry =>
          row last.repr.length (if entry.1 = location.line then ">" else " ") entry) =
        entries.map (printedLine " " last) := by
    intro last entries hsub
    refine List.map_congr_left fun entry hentry => ?_
    rw [if_neg (hmark entry (hsub hentry)), row_eq_printedLine]
  have hlast : location.context.getLast? = some (((location.line, text) :: after).getLast
      (List.cons_ne_nil _ _)) := by
    rw [h, List.getLast?_append, List.getLast?_eq_some_getLast (List.cons_ne_nil _ _)]
    rfl
  rw [excerpt, hlast]
  dsimp only
  rw [h, List.map_append, List.map_cons, hblank _ before (List.subset_append_left _ _),
    hblank _ after (List.subset_append_right _ _), if_pos rfl, row_eq_printedLine]
  simp [printedExcerpt, String.append_assoc]

end TemplateFault

/-! ### The tag at fault -/

/-- **A fault is reported at the start of a tag**, be it the one that is refused or that of an open
block. -/
theorem start_of_error {P : Nat → Prop} {opened : List (OpenBlock × List Node)} {done : List Node}
    {tokens : List Token} {cause : BlockFault} {offset : Nat}
    (hopened : ∀ entry ∈ opened, P entry.1.unclosed.2)
    (htokens : ∀ token ∈ tokens, ∀ tag, token.lexeme = .tag tag → P token.start)
    (h : Node.ofTokensIn opened done tokens = .error (cause, offset)) : P offset := by
  -- `P` holds of all open blocks on the way, as each of them was opened by a tag
  induction tokens generalizing opened done with
  | nil =>
    cases opened with
    | nil => cases h
    | cons entry outer =>
      have hunclosed : entry.1.unclosed = (cause, offset) := Except.error.inj h
      have hentry := hopened entry List.mem_cons_self
      rwa [hunclosed] at hentry
  | cons token tokens ih =>
    obtain ⟨hfirst, hrest⟩ := List.forall_mem_cons.1 htokens
    obtain ⟨lexeme, start, stop⟩ := token
    cases lexeme with
    | plain text => exact ih hopened hrest h
    | tag tag =>
      have hstart : P start := hfirst tag rfl
      have hrefused : ∀ {fault : BlockFault},
          (Except.error (fault, start) : Except (BlockFault × Nat) (List Node)) =
            .error (cause, offset) → P offset := by
        intro fault he
        obtain ⟨-, rfl⟩ := Prod.mk.inj (Except.error.inj he)
        exact hstart
      cases tag with
      | placeholder path => exact ih hopened hrest h
      | eachOpen key =>
        have hmore : ∀ entry ∈ (OpenBlock.loop key start, done) :: opened, P entry.1.unclosed.2 :=
          List.forall_mem_cons.2 ⟨hstart, hopened⟩
        exact ih hmore hrest h
      | ifOpen c =>
        have hmore : ∀ entry ∈ (OpenBlock.firstBranch c start, done) :: opened,
            P entry.1.unclosed.2 := List.forall_mem_cons.2 ⟨hstart, hopened⟩
        exact ih hmore hrest h
      | eachClose =>
        cases opened with
        | nil => exact hrefused h
        | cons entry outer =>
          obtain ⟨block, before⟩ := entry
          cases block with
          | loop key offset => exact ih (List.forall_mem_cons.1 hopened).2 hrest h
          | firstBranch c offset => exact hrefused h
          | secondBranch c offset whenTrue => exact hrefused h
      | otherwise =>
        cases opened with
        | nil => exact hrefused h
        | cons entry outer =>
          obtain ⟨block, before⟩ := entry
          cases block with
          | loop key offset => exact hrefused h
          | firstBranch c offset =>
            have hhalved : ∀ entry ∈ (OpenBlock.secondBranch c offset done.reverse, before) :: outer,
                P entry.1.unclosed.2 := List.forall_mem_cons.2 (List.forall_mem_cons.1 hopened)
            exact ih hhalved hrest h
          | secondBranch c offset whenTrue => exact hrefused h
      | ifClose =>
        cases opened with
        | nil => exact hrefused h
        | cons entry outer =>
          obtain ⟨block, before⟩ := entry
          cases block with
          | loop key offset => exact hrefused h
          | firstBranch c offset => exact ih (List.forall_mem_cons.1 hopened).2 hrest h
          | secondBranch c offset whenTrue => exact ih (List.forall_mem_cons.1 hopened).2 hrest h

/-- The text in front of a tag of a template, and the tag with what follows it. -/
theorem exists_of_tag {source : String} {t : Token} {tag : Tag} (ht : t ∈ Token.ofSource source)
    (htag : t.lexeme = .tag tag) :
    ∃ front rest, source.toList = front ++ (Tag.opening ++ rest) ∧ t.start = size front := by
  obtain ⟨lexeme, start, stop⟩ := t
  obtain rfl : lexeme = .tag tag := htag
  obtain ⟨lexeme, a, b, hpieces, rfl, -⟩ := mem_ofSource_tag.1 ht
  have hfound : Piece.found tag lexeme ∈ Tag.recogniser.pieces source.toList := by simp [hpieces]
  obtain ⟨s, rest, hread⟩ := genuine_pieces source.toList tag lexeme hfound
  obtain ⟨w, rfl⟩ := Tag.recogniser_begins hread
  refine ⟨Pieces.join a, w ++ Pieces.join b, ?_, rfl⟩
  rw [← Recogniser.flatten_pieces Tag.recogniser source.toList, hpieces]
  simp [Pieces.join, Piece.text]

/-! ### Reports -/

/-- **What the lines around a location show**: no more than five lines of the text, numbered one after
the other, and in that of the location itself a tag that begins at its column. -/
structure Location.ShowsTag (s : List Char) (location : Location) : Prop where
  few : location.context.length ≤ 5
  consecutive : ∃ first,
    location.context.map Prod.fst = List.range' first location.context.length
  faithful : ∀ entry ∈ location.context,
    0 < entry.1 ∧ (lines s)[entry.1 - 1]? = some entry.2.toList
  opens : ∃ text, (location.line, text) ∈ location.context ∧
    Tag.opening <+: text.toList.drop (location.column - 1)

/-- **A report that marks one line**, and it is the line of the location. What stands above and below
the printed lines is the same for all of them. -/
def TemplateFault.Marks (cause : BlockFault) (location : Location) : Prop :=
  ∃ above text below, location.context = above ++ (location.line, text) :: below ∧
    (TemplateFault.unbalanced cause location).report =
      "ERROR: Template Syntax Error\n\n" ++ "Error: " ++ cause.message ++ "\n" ++
        "Line: " ++ location.line.repr ++ ", column: " ++ location.column.repr ++ "\n" ++
        ("\n" ++ printedExcerpt above (location.line, text) below) ++
        ("\nSUGGESTION: Check that every block tag is closed.\nCommon issues:\n" ++
          "  - \x7b\x7b#each key\x7d\x7d without a matching \x7b\x7b/each\x7d\x7d\n" ++
          "  - \x7b\x7b#if key\x7d\x7d without a matching \x7b\x7b/if\x7d\x7d\n" ++
          "  - \x7b\x7b#else\x7d\x7d outside of an \x7b\x7b#if\x7d\x7d block\n")

/-- What a report consists of. -/
theorem TemplateFault.report_unbalanced (cause : BlockFault) (location : Location) :
    (TemplateFault.unbalanced cause location).report =
      "ERROR: Template Syntax Error\n\n" ++ "Error: " ++ cause.message ++ "\n" ++
        "Line: " ++ location.line.repr ++ ", column: " ++ location.column.repr ++ "\n" ++
        excerpt location ++ advice := rfl

theorem TemplateFault.advice_eq : advice =
    "\nSUGGESTION: Check that every block tag is closed.\nCommon issues:\n" ++
      "  - \x7b\x7b#each key\x7d\x7d without a matching \x7b\x7b/each\x7d\x7d\n" ++
      "  - \x7b\x7b#if key\x7d\x7d without a matching \x7b\x7b/if\x7d\x7d\n" ++
      "  - \x7b\x7b#else\x7d\x7d outside of an \x7b\x7b#if\x7d\x7d block\n" := by
  decide +kernel

theorem length_before_le (s : List Char) (offset : Nat) :
    (Location.before s offset).length ≤ s.length := by
  unfold Location.before
  split
  · next front back hcut =>
    obtain ⟨rfl, -⟩ := cut?_eq_some_iff.1 hcut
    simp
  · exact Nat.le_refl _

/-- A line number is at most one above the size of the source. -/
theorem lineAt_le (s : List Char) (offset : Nat) : Location.lineAt s offset ≤ size s + 1 := by
  have hbefore := length_before_le s offset
  have hcount := List.count_le_length (a := lineFeed) (l := Location.before s offset)
  have hsize := length_le_size s
  rw [Location.lineAt]
  omega

theorem length_lastLine_le (s : List Char) : (lastLine s).length ≤ s.length :=
  calc (lastLine s).length
      = (s.reverse.takeWhile (· != lineFeed)).length := List.length_reverse
    _ ≤ s.reverse.length := (List.takeWhile_prefix _).length_le
    _ = s.length := List.length_reverse

/-- A column number is at most one above the size of the source. -/
theorem columnAt_le (s : List Char) (offset : Nat) : Location.columnAt s offset ≤ size s + 1 := by
  have hlast := length_lastLine_le (Location.before s offset)
  have hbefore := length_before_le s offset
  have hsize := length_le_size s
  rw [Location.columnAt]
  omega

/-- Every place has a location, as long as the numbers of the lines around it are machine words. -/
theorem isSome_at? (source : String) (offset : Nat) {window : UInt64}
    (h : size source.toList + window.toNat + 2 < UInt64.size) :
    (Location.at? source offset window).isSome := by
  have hle := lineAt_le source.toList offset
  rw [Location.at?, Option.isSome_map, Location.contextAround?]
  split
  · rfl
  · next hthere =>
    rw [Option.isSome_map, Window.of?_small (by omega) (by omega) (by omega)]
    rfl

/-- A location has the line and the column of its byte position. -/
theorem line_column_of_at? {source : String} {window : UInt64} {location : Location}
    (h : Location.at? source offset window = some location) :
    location.line = Location.lineAt source.toList offset ∧
      location.column = Location.columnAt source.toList offset := by
  obtain ⟨context, -, rfl⟩ := Option.map_eq_some_iff.1 h
  exact ⟨rfl, rfl⟩

/-- **The location of a tag** shows the tag. -/
theorem showsTag_ofFault {source : String} (hsize : 2 * size source.toList < UInt64.size)
    {front rest : List Char} (hsource : source.toList = front ++ (Tag.opening ++ rest)) :
    Location.at? source (size front) Location.faultContext =
        some (Location.ofFault source (size front)) ∧
      Location.ShowsTag source.toList (Location.ofFault source (size front)) := by
  obtain ⟨line, hline, hopening⟩ := exists_line front rest
  rw [← hsource] at hline hopening
  have hle := lineAt_le source.toList (size front)
  have hthere := (List.getElem?_eq_some_iff.1 hline).1
  have hpos : 0 < Location.lineAt source.toList (size front) := Nat.succ_pos _
  have hword : UInt64.size = 18446744073709551616 := rfl
  -- the numbers are far from the end of a machine word, so that there is a window
  obtain ⟨w, hcontext, hstart, hstop, hfive⟩ :=
    exists_window (s := source.toList) hpos (by omega) (by omega)
  have hshown : (Location.ofFault source (size front)).context =
      Location.numbered w (lines source.toList) := by
    simp only [Location.ofFault, hcontext, Option.getD_some]
  have hnumbers := map_fst_numbered w (lines source.toList)
  have hlength := congrArg List.length hnumbers
  rw [List.length_map, List.length_range'] at hlength
  constructor
  · simp only [Location.at?, Location.ofFault, hcontext, Option.map_some, Option.getD_some]
  · constructor
    case few =>
      rw [hshown, hlength]
      omega
    case consecutive =>
      rw [hshown, hnumbers, hlength]
      exact ⟨_, rfl⟩
    case faithful =>
      rintro ⟨n, text⟩ hentry
      rw [hshown] at hentry
      obtain ⟨hfirst, -, htext⟩ := mem_numbered.1 hentry
      have hnumber : 0 < n := by omega
      exact ⟨hnumber, htext⟩
    case opens =>
      have htext : (lines source.toList)[Location.lineAt source.toList (size front) - 1]? =
          some (String.ofList line).toList := by rw [hline, String.toList_ofList]
      refine ⟨String.ofList line, ?_, ?_⟩
      · rw [hshown]
        exact mem_numbered.2 ⟨hstart, hstop, htext⟩
      · rw [String.toList_ofList]
        exact hopening

/-- A location that shows its tag is marked as it should be. -/
theorem Location.ShowsTag.marks {location : Location} (h : location.ShowsTag s)
    (cause : BlockFault) : TemplateFault.Marks cause location := by
  obtain ⟨first, hfirst⟩ := h.consecutive
  obtain ⟨text, hline, -⟩ := h.opens
  obtain ⟨above, below, hcontext⟩ := List.append_of_mem hline
  have hnumbers : (location.context.map Prod.fst).Nodup := by
    rw [hfirst]
    exact List.nodup_range'
  refine ⟨above, text, below, hcontext, ?_⟩
  rw [TemplateFault.report_unbalanced, TemplateFault.excerpt_eq hcontext hnumbers,
    TemplateFault.advice_eq]

/-- **Locations are exact, and reports show the tag at fault.** The location of a byte position stands
for that position and for no other one, and it grows with the position; there is one wherever the line
numbers are machine words. A text in memory has fewer bytes than half of the machine words; where such a
template has no tree, the location of the fault is that of a tag, the lines around it show that tag, and
the report marks its line and no other one. -/
theorem locations_exact (source : String) :
    (∀ offset window location, IsBoundary source.toList offset →
        Location.at? source offset window = some location →
      StandsAt source.toList location.line location.column offset) ∧
    (∀ line column offset offset', StandsAt source.toList line column offset →
      StandsAt source.toList line column offset' → offset = offset') ∧
    (∀ offset offset' window window' location location', IsBoundary source.toList offset →
        IsBoundary source.toList offset' → offset < offset' →
        Location.at? source offset window = some location →
        Location.at? source offset' window' = some location' →
      location.line < location'.line ∨
        location.line = location'.line ∧ location.column < location'.column) ∧
    (∀ offset window, size source.toList + window.toNat + 2 < UInt64.size →
      (Location.at? source offset window).isSome) ∧
    (2 * size source.toList < UInt64.size → ∀ fault, Node.ofSource source = .error fault →
      ∃ cause location, fault = .unbalanced cause location ∧
        (∃ token ∈ Token.ofSource source, (∃ tag, token.lexeme = .tag tag) ∧
          Location.at? source token.start Location.faultContext = some location ∧
          StandsAt source.toList location.line location.column token.start) ∧
        location.ShowsTag source.toList ∧ TemplateFault.Marks cause location) := by
  refine ⟨?_, ?_, ?_, ?_, ?_⟩
  · intro offset window location hoffset hat
    obtain ⟨hline, hcolumn⟩ := line_column_of_at? hat
    rw [hline, hcolumn]
    exact standsAt_lineAt hoffset
  · intro line column offset offset' h h'
    exact h.unique h'
  · intro offset offset' window window' location location' hoffset hoffset' hlt hat hat'
    obtain ⟨hline, hcolumn⟩ := line_column_of_at? hat
    obtain ⟨hline', hcolumn'⟩ := line_column_of_at? hat'
    rw [hline, hcolumn, hline', hcolumn']
    exact lt_of_lt hoffset hoffset' hlt
  · intro offset window hsize
    exact isSome_at? source offset hsize
  · intro hsize fault hfault
    obtain ⟨cause, offset, herror, rfl⟩ := ofSource_eq_error.1 hfault
    -- every token that is a tag could be the one at fault
    obtain ⟨token, htoken, ⟨tag, htag⟩, rfl⟩ : ∃ token ∈ Token.ofSource source,
        (∃ tag, token.lexeme = .tag tag) ∧ token.start = offset := by
      refine start_of_error (P := fun offset => ∃ token ∈ Token.ofSource source,
        (∃ tag, token.lexeme = .tag tag) ∧ token.start = offset)
        (List.forall_mem_nil _) ?_ herror
      intro token htoken tag htag
      exact ⟨token, htoken, ⟨tag, htag⟩, rfl⟩
    obtain ⟨front, rest, hsource, hstart⟩ := exists_of_tag htoken htag
    obtain ⟨hat, hshows⟩ := showsTag_ofFault hsize hsource
    rw [← hstart] at hat hshows
    exact ⟨cause, _, rfl, ⟨token, htoken, ⟨tag, htag⟩, hat, standsAt_ofFault htoken⟩, hshows,
      hshows.marks cause⟩

/-- Both kinds of line endings, and a character of two bytes in front of the tag. -/
theorem location_of_lone_closing :
    Location.at? "a\r\n\n\u00e9\x7b\x7b/if\x7d\x7d\r\n" 6 Location.faultContext =
        some ⟨3, 2, [(1, "a"), (2, ""), (3, "\u00e9\x7b\x7b/if\x7d\x7d")]⟩ ∧
      StandsAt "a\r\n\n\u00e9\x7b\x7b/if\x7d\x7d\r\n".toList 3 2 6 ∧
      ∃ cause location, Node.ofSource "a\r\n\n\u00e9\x7b\x7b/if\x7d\x7d\r\n" =
          .error (.unbalanced cause location) ∧
        location.ShowsTag "a\r\n\n\u00e9\x7b\x7b/if\x7d\x7d\r\n".toList ∧
        TemplateFault.Marks cause location ∧
        (TemplateFault.unbalanced cause location).report =
          "ERROR: Template Syntax Error\n\nError: unexpected \x7b\x7b/if\x7d\x7d\n" ++
            "Line: 3, column: 2\n\n" ++
            "  1 | a\n  2 | \n> 3 | \u00e9\x7b\x7b/if\x7d\x7d\n\n" ++
            "SUGGESTION: Check that every block tag is closed.\nCommon issues:\n" ++
            "  - \x7b\x7b#each key\x7d\x7d without a matching \x7b\x7b/each\x7d\x7d\n" ++
            "  - \x7b\x7b#if key\x7d\x7d without a matching \x7b\x7b/if\x7d\x7d\n" ++
            "  - \x7b\x7b#else\x7d\x7d outside of an \x7b\x7b#if\x7d\x7d block\n" := by
  obtain ⟨hexact, -, -, -, hreports⟩ :=
    locations_exact "a\r\n\n\u00e9\x7b\x7b/if\x7d\x7d\r\n"
  have hat : Location.at? "a\r\n\n\u00e9\x7b\x7b/if\x7d\x7d\r\n" 6 Location.faultContext =
      some ⟨3, 2, [(1, "a"), (2, ""), (3, "\u00e9\x7b\x7b/if\x7d\x7d")]⟩ := by rfl
  have hboundary : IsBoundary "a\r\n\n\u00e9\x7b\x7b/if\x7d\x7d\r\n".toList 6 :=
    ⟨"a\r\n\n\u00e9".toList, "\x7b\x7b/if\x7d\x7d\r\n".toList, by decide, by decide⟩
  have htokens : Token.ofSource "a\r\n\n\u00e9\x7b\x7b/if\x7d\x7d\r\n" =
      [⟨.plain "a\r\n\n\u00e9", 0, 6⟩, ⟨.tag .ifClose, 6, 13⟩, ⟨.plain "\r\n", 13, 15⟩] := by
    decide +kernel
  have herror := ofSource_eq_error.2 ⟨.unexpectedIfClose, 6, by rw [htokens]; rfl, rfl⟩
  obtain ⟨cause, location, hfault, -, hshows, hmarks⟩ := hreports (by decide) _ herror
  obtain ⟨rfl, rfl⟩ := TemplateFault.unbalanced.inj hfault
  exact ⟨hat, hexact _ _ _ hboundary hat, _, _, herror, hshows, hmarks, by decide +kernel⟩

/-- Numbers of one digit stand behind a blank where the last one has two. -/
example : printedExcerpt [(9, "a")] (10, "b") [] = "   9 | a\n> 10 | b\n" := by decide +kernel

end Stencil
