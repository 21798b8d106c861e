import Mathlib.Data.List.Basic
import Stencil.Proofs.Excerpts

/-!
# Lines around a location

A location is shown with so many lines on either side of its own one. Where these lines begin and where
they end comes from two sums with that size, which is a machine word. As long as both sums are machine
words too, the lines are the ones asked for. Otherwise a sum wraps around, and the lines end above the
location; at the greatest word, and only there, there is no window at all.

* `Window.of?_cases`: what a window can be.
* `numbered_eq_between`: the lines of a window, one for each number.
* `mem_surroundings`: which lines are asked for.
* `surroundings_exact`: the lines around a location are the ones asked for exactly when no sum wraps
  around.
-/

namespace Stencil

open Text

variable {s : List Char} {w : Window} {total line n : Nat} {size : UInt64} {text : String}

/-! ### Windows -/

namespace Window

/-- **The sums of a window are machine words**: its size with the line itself, and the number of the last
line. -/
def Fits (line : Nat) (size : UInt64) : Prop :=
  size.toNat + 1 < UInt64.size ∧ line + size.toNat < UInt64.size

instance : Decidable (Fits line size) := inferInstanceAs (Decidable (_ ∧ _))

theorem fits_iff (hpos : 0 < line) : Fits line size ↔ line + size.toNat < UInt64.size := by
  rw [Fits]
  omega

/-- **What a window can be.** When its sums are machine words, it reaches as far as it is asked to. When
only the first one is, it begins with the text and ends above the line; otherwise it would end before its
start. -/
theorem of?_cases (size : UInt64) (hpos : 0 < line) (hline : line ≤ total)
    (hword : 2 * line ≤ UInt64.size) :
    Fits line size ∧ of? total line size =
        some ⟨line - (size.toNat + 1), min (line + size.toNat) total⟩ ∨
      ¬ Fits line size ∧ size.toNat + 1 < UInt64.size ∧
        of? total line size = some ⟨0, line + size.toNat - UInt64.size⟩ ∨
      ¬ Fits line size ∧ size.toNat + 1 = UInt64.size ∧ of? total line size = none := by
  have hsize : size.toNat + 1 ≤ UInt64.size := size.toNat_lt_size
  by_cases hfits : Fits line size
  · exact .inl ⟨hfits, of?_small hpos hline ((fits_iff hpos).1 hfits)⟩
  have hover : UInt64.size ≤ line + size.toNat := Nat.le_of_not_lt (mt (fits_iff hpos).2 hfits)
  -- the size is a word and the line is no more than half of one, so the sum wraps around once
  have hlast : (line.toUInt64 + size).toNat = line + size.toNat - UInt64.size := by
    rw [toNat_line_add (by omega), Nat.mod_eq_sub_mod hover, Nat.mod_eq_of_lt (by omega)]
  have habove : (size + 1).toNat = (size.toNat + 1) % UInt64.size := UInt64.toNat_add size 1
  -- the other sum wraps around at the greatest word only, and the window then begins at the line
  rcases Nat.lt_or_eq_of_le hsize with hmost | hmost
  · have hstart : line - (size.toNat + 1) = 0 := by omega
    have hstop : min (line + size.toNat - UInt64.size) total = line + size.toNat - UInt64.size := by
      omega
    refine .inr (.inl ⟨hfits, hmost, ?_⟩)
    rw [of?, habove, Nat.mod_eq_of_lt hmost, hlast, hstart, hstop, if_pos (Nat.zero_le _)]
  · refine .inr (.inr ⟨hfits, hmost, ?_⟩)
    rw [of?, habove, hmost, Nat.mod_self, hlast, if_neg (by omega)]

end Window

/-! ### Lines between two numbers -/

namespace Location

/-- The lines of a text from number `first` to number `last`. -/
def between (s : List Char) (first last : Nat) : List (Nat × String) :=
  (List.range' first (last + 1 - first)).filterMap fun n =>
    (lines s)[n - 1]?.map fun line => (n, String.ofList line)

/-- **The lines around a line** that are asked for: `size` of them on either side, as far as the text has
them, and none where the text has no such line. -/
def surroundings (s : List Char) (line size : Nat) : List (Nat × String) :=
  if (lines s).length < line then []
  else between s (max 1 (line - size)) (min (lines s).length (line + size))

/-- **The location that is asked for**, with sums of any size. -/
def unbounded (source : String) (offset size : Nat) : Location :=
  let line := lineAt source.toList offset
  ⟨line, columnAt source.toList offset, surroundings source.toList line size⟩

end Location

/-- **The lines of a window**, one for each number. -/
theorem numbered_eq_between (hstop : w.stop ≤ (lines s).length) :
    Location.numbered w (lines s) = Location.between s (w.start + 1) w.stop := by
  have hnumbers : (Location.numbered w (lines s)).map Prod.fst =
      List.range' (w.start + 1) (w.stop + 1 - (w.start + 1)) := by
    rw [map_fst_numbered, Nat.min_eq_left hstop, Nat.add_sub_add_right]
  have hentry : ∀ entry ∈ Location.numbered w (lines s),
      ((lines s)[entry.1 - 1]?.map fun line => (entry.1, String.ofList line)) = some entry := by
    rintro ⟨n, text⟩ hmem
    obtain ⟨-, -, htext⟩ := mem_numbered.1 hmem
    rw [htext, Option.map_some, String.ofList_toList]
  calc Location.numbered w (lines s)
      = (Location.numbered w (lines s)).filterMap some := List.filterMap_some.symm
    _ = (Location.numbered w (lines s)).filterMap fun entry =>
          (lines s)[entry.1 - 1]?.map fun line => (entry.1, String.ofList line) :=
        List.filterMap_congr fun entry hmem => (hentry entry hmem).symm
    _ = Location.between s (w.start + 1) w.stop := by
        rw [Location.between, ← hnumbers, List.filterMap_map]
        rfl

theorem mem_between {first last : Nat} : (n, text) ∈ Location.between s first last ↔
    first ≤ n ∧ n ≤ last ∧ (lines s)[n - 1]? = some text.toList := by
  rw [Location.between, List.mem_filterMap]
  constructor
  · rintro ⟨k, hk, hentry⟩
    obtain ⟨line, hline, heq⟩ := Option.map_eq_some_iff.1 hentry
    obtain ⟨rfl, rfl⟩ := Prod.mk.inj heq
    rw [List.mem_range'_1] at hk
    rw [hline, String.toList_ofList]
    exact ⟨hk.1, by omega, rfl⟩
  · rintro ⟨hfirst, hlast, htext⟩
    refine ⟨n, List.mem_range'_1.2 ⟨hfirst, by omega⟩, ?_⟩
    rw [htext, Option.map_some, String.ofList_toList]

/-! ### Lines around a location -/

/-- **Which lines are asked for**: those no further than `size` away from a line that is there. -/
theorem mem_surroundings {size : Nat} : (n, text) ∈ Location.surroundings s line size ↔
    line ≤ (lines s).length ∧ 0 < n ∧ line ≤ n + size ∧ n ≤ line + size ∧
      (lines s)[n - 1]? = some text.toList := by
  rw [Location.surroundings]
  split
  · next hbelow => simp [Nat.not_le_of_lt hbelow]
  · next hthere =>
    rw [mem_between]
    constructor
    · rintro ⟨hfirst, hlast, htext⟩
      exact ⟨by omega, by omega, by omega, by omega, htext⟩
    · rintro ⟨hline, hpos, hfirst, hlast, htext⟩
      have hnumber := (List.getElem?_eq_some_iff.1 htext).1
      exact ⟨by omega, by omega, htext⟩

theorem numbered_eq_surroundings (hline : line ≤ (lines s).length) (size : Nat) :
    Location.numbered ⟨line - (size + 1), min (line + size) (lines s).length⟩ (lines s) =
      Location.surroundings s line size := by
  have hfirst : line - (size + 1) + 1 = max 1 (line - size) := by omega
  rw [numbered_eq_between (Nat.min_le_right _ _), Location.surroundings, if_neg (Nat.not_lt.2 hline),
    hfirst, Nat.min_comm]

/-- A window that ends above the line does not show what is asked for. -/
theorem numbered_ne_surroundings (hpos : 0 < line) (hline : line ≤ (lines s).length)
    (hstop : w.stop < line) (size : Nat) :
    Location.numbered w (lines s) ≠ Location.surroundings s line size := by
  have hindex : line - 1 < (lines s).length := by omega
  have htext : (lines s)[line - 1]? = some (String.ofList (lines s)[line - 1]).toList := by
    rw [List.getElem?_eq_getElem hindex, String.toList_ofList]
  have hshown : (line, String.ofList (lines s)[line - 1]) ∈ Location.surroundings s line size :=
    mem_surroundings.2 ⟨hline, hpos, Nat.le_add_right _ _, Nat.le_add_right _ _, htext⟩
  intro heq
  rw [← heq] at hshown
  obtain ⟨-, hlast, -⟩ := mem_numbered.1 hshown
  omega

theorem at?_of_below {source : String} {offset : Nat}
    (hbelow : (lines source.toList).length < Location.lineAt source.toList offset) :
    Location.at? source offset size =
      some ⟨Location.lineAt source.toList offset, Location.columnAt source.toList offset, []⟩ := by
  simp only [Location.at?, Location.contextAround?, if_pos (Or.inr hbelow), Option.map_some]

theorem at?_of_there {source : String} {offset : Nat}
    (hthere : Location.lineAt source.toList offset ≤ (lines source.toList).length) :
    Location.at? source offset size =
      (Window.of? (lines source.toList).length (Location.lineAt source.toList offset) size).map
        fun w => ⟨Location.lineAt source.toList offset, Location.columnAt source.toList offset,
          Location.numbered w (lines source.toList)⟩ := by
  have hline : ¬ (Location.lineAt source.toList offset = 0 ∨
      (lines source.toList).length < Location.lineAt source.toList offset) := by
    have hpos : 0 < Location.lineAt source.toList offset := Nat.succ_pos _
    omega
  simp only [Location.at?, Location.contextAround?, if_neg hline, Option.map_map]
  rfl

/-- The location is the one asked for wherever there is no line to show, or no sum wraps around. -/
theorem at?_eq_unbounded {source : String} {offset : Nat}
    (h : (lines source.toList).length < Location.lineAt source.toList offset ∨
      Window.Fits (Location.lineAt source.toList offset) size) :
    Location.at? source offset size = some (.unbounded source offset size.toNat) := by
  have hpos : 0 < Location.lineAt source.toList offset := Nat.succ_pos _
  rcases Nat.lt_or_ge (lines source.toList).length (Location.lineAt source.toList offset) with
    hbelow | hthere
  · rw [at?_of_below hbelow, Location.unbounded, Location.surroundings, if_pos hbelow]
  · have hfits := h.resolve_left (Nat.not_lt.2 hthere)
    rw [at?_of_there hthere, Window.of?_small hpos hthere ((Window.fits_iff hpos).1 hfits),
      Option.map_some, numbered_eq_surroundings hthere, Location.unbounded]

/-- **The lines around a location are the ones asked for** where no sum of its window wraps around, for
any text. A text in memory has fewer bytes than half of the machine words; then lines and columns are
machine words, no other location is as asked for, and at the greatest word alone there may be none. -/
theorem surroundings_exact (source : String) (offset : Nat) (window : UInt64) :
    ((lines source.toList).length < Location.lineAt source.toList offset ∨
        Window.Fits (Location.lineAt source.toList offset) window →
      Location.at? source offset window = some (.unbounded source offset window.toNat)) ∧
    (2 * Text.size source.toList < UInt64.size →
      (Location.lineAt source.toList offset < UInt64.size ∧
        Location.columnAt source.toList offset < UInt64.size) ∧
      (Location.at? source offset window = some (.unbounded source offset window.toNat) →
        (lines source.toList).length < Location.lineAt source.toList offset ∨
          Window.Fits (Location.lineAt source.toList offset) window) ∧
      (Location.at? source offset window = none ↔
        Location.lineAt source.toList offset ≤ (lines source.toList).length ∧
          window.toNat + 1 = UInt64.size)) := by
  refine ⟨at?_eq_unbounded, fun hmemory => ?_⟩
  have hline := lineAt_le source.toList offset
  have hcolumn := columnAt_le source.toList offset
  have hpos : 0 < Location.lineAt source.toList offset := Nat.succ_pos _
  have hword : UInt64.size = 18446744073709551616 := rfl
  refine ⟨⟨by omega, by omega⟩, ?_⟩
  rcases Nat.lt_or_ge (lines source.toList).length (Location.lineAt source.toList offset) with
    hbelow | hthere
  · rw [at?_of_below hbelow]
    simp [hbelow, Nat.not_le_of_lt hbelow]
  · rw [at?_of_there hthere]
    rcases Window.of?_cases window hpos hthere (by omega) with
      ⟨hfits, hwindow⟩ | ⟨hfits, hmost, hwindow⟩ | ⟨hfits, hmost, hwindow⟩
    · have hmost : window.toNat + 1 ≠ UInt64.size := Nat.ne_of_lt hfits.1
      simp [hwindow, hfits, hmost]
    · have hstop : Location.lineAt source.toList offset + window.toNat - UInt64.size <
          Location.lineAt source.toList offset := by omega
      have hshort := numbered_ne_surroundings (w := ⟨0, _⟩) hpos hthere hstop window.toNat
      simp [hwindow, Location.unbounded, hshort, Nat.ne_of_lt hmost]
    · simp [hwindow, hmost, hthere]

/-- Both kinds of line endings, and the greatest size with which the number of the last line is a machine
word. -/
theorem surroundings_of_widest :
    Window.Fits 2 18446744073709551613 ∧ 2 * Text.size "a\r\n\nb\n".toList < UInt64.size ∧
      Location.at? "a\r\n\nb\n" 3 18446744073709551613 =
        some ⟨2, 1, [(1, "a"), (2, ""), (3, "b")]⟩ ∧
      Location.at? "a\r\n\nb\n" 3 18446744073709551615 = none := by
  have hfits : Window.Fits 2 18446744073709551613 := by decide
  have hmemory : 2 * Text.size "a\r\n\nb\n".toList < UInt64.size := by decide
  obtain ⟨hexact, -⟩ := surroundings_exact "a\r\n\nb\n" 3 18446744073709551613
  obtain ⟨-, hsound⟩ := surroundings_exact "a\r\n\nb\n" 3 18446744073709551615
  obtain ⟨-, -, hnone⟩ := hsound hmemory
  exact ⟨hfits, hmemory, hexact (.inr hfits), hnone.2 ⟨by decide, by decide⟩⟩

/-- With a greater size the line itself is not shown, nor any other one; with the greatest one there is no
location. -/
theorem window_wraps_around :
    ¬ Window.Fits 2 18446744073709551614 ∧
      (Location.unbounded "a\nb\nc" 2 18446744073709551614).context =
        [(1, "a"), (2, "b"), (3, "c")] ∧
      Location.at? "a\nb\nc" 2 18446744073709551614 = some ⟨2, 1, []⟩ ∧
      Location.at? "a\nb\nc" 2 18446744073709551615 = none :=
  ⟨by decide, by decide, rfl, rfl⟩

end Stencil
