import Stencil.Proofs.TagKinds
import Stencil.Render.Renderer

/-!
# What clearing leaves behind

Clearing takes every placeholder out of a text at once. What is left on the two sides of one comes to
stand together, and may make a placeholder then: in `{`, `{{x}}`, `{y}}` taking `{{x}}` out leaves
`{{y}}`. That is the only way a placeholder survives.

* `Cleared`: the pass as a relation between a text and what is left of it.
* `Severed`: a placeholder stands in the text with other placeholders put into it.
* `placeholder_left_iff_severed`: a placeholder is left exactly where one was severed.
-/

namespace Stencil

/-- The text of a template when the last pass begins. -/
def expanded (missing : MissingBlocks) (template : String) (context : Context) : List Char :=
  Expansion.conditionals context.merged
    (Expansion.loops context.merged missing (Placeholder.fillAll template.toList context))

/-- Clearing is the last pass of rendering. -/
theorem render_eq_clear (missing : MissingBlocks) (template : String) (context : Context) :
    render missing template context =
      .ofList (Placeholder.clear (expanded missing template context)) :=
  rfl

namespace Placeholder

open Text Tag

variable {s t u v a b m path : List Char} {c : Char}

/-- A placeholder stands in the text. -/
def Occurs (s : List Char) : Prop :=
  ∃ a path b, isPath path = true ∧ s = a ++ braced path ++ b

/-- `Strewn s u`: the text `s` is `u` with placeholders put between its characters. -/
inductive Strewn : List Char → List Char → Prop where
  | nil : Strewn [] []
  | keep {s u : List Char} (c : Char) : Strewn s u → Strewn (c :: s) (c :: u)
  | insert {path s u : List Char} : isPath path = true → Strewn s u → Strewn (braced path ++ s) u

/-- **A severed placeholder**: between its first and its last brace other placeholders have been put. -/
def Severed (s : List Char) : Prop :=
  ∃ a m b path, isPath path = true ∧ s = a ++ '{' :: (m ++ '}' :: b) ∧
    Strewn m ('{' :: (path ++ ['}'])) ∧ m ≠ '{' :: (path ++ ['}'])

/-- `Cleared s u`: going through `s` from left to right, each placeholder is dropped and every other
character is kept, which leaves `u`. -/
inductive Cleared : List Char → List Char → Prop where
  | nil : Cleared [] []
  | keep {c : Char} {s u : List Char} : placeholderPath.read (c :: s) = none → Cleared s u →
    Cleared (c :: s) (c :: u)
  | drop {path s u : List Char} : isPath path = true → Cleared s u → Cleared (braced path ++ s) u

/-! ### The pass as a relation -/

/-- A path between braces is read as a placeholder. -/
theorem read_braced (h : isPath path = true) (s : List Char) :
    placeholderPath.read (braced path ++ s) = some (.ofList path, braced path, s) :=
  placeholderPath_eq_some.2 (by rw [String.toList_ofList]; exact ⟨h, rfl, rfl⟩)

/-- A placeholder begins with two braces and a key. -/
theorem read_begins {x : String × List Char × List Char} (h : placeholderPath.read s = some x) :
    ∃ c t, s = '{' :: '{' :: c :: t ∧ isKeyChar c = true := by
  obtain ⟨hpath, hfront, hs⟩ := placeholderPath_eq_some.1 h
  obtain ⟨c, t, ht, hc⟩ := exists_cons_of_isPath hpath
  exact ⟨c, t ++ closing ++ x.2.2, by rw [hs, hfront, ht]; simp [braced, opening], hc⟩

theorem clear_nil : clear [] = [] := Recogniser.replace_nil _ _

/-- A character where no placeholder begins stays. -/
theorem clear_cons (h : placeholderPath.read (c :: s) = none) : clear (c :: s) = c :: clear s :=
  Recogniser.replace_cons_of_none _ h

/-- A placeholder is taken out, and the pass goes on behind it. -/
theorem clear_braced (h : isPath path = true) (s : List Char) :
    clear (braced path ++ s) = clear s := by
  rw [clear, Recogniser.replace_of_read _ (read_braced h s)]
  rfl

/-- The pass goes through the text in this way. -/
theorem cleared_clear (s : List Char) : Cleared s (clear s) := by
  -- on the length, as the pass goes on behind what it drops
  induction hn : s.length using Nat.strongRecOn generalizing s with
  | ind n ih =>
    subst hn
    cases s with
    | nil => rw [clear_nil]; exact .nil
    | cons c s =>
      cases h : placeholderPath.read (c :: s) with
      | none =>
        rw [clear_cons h]
        exact .keep h (ih _ (by simp) s rfl)
      | some x =>
        obtain ⟨path, front, rest⟩ := x
        have hlt := placeholderPath.length_lt h
        obtain ⟨hpath, rfl, hs⟩ := placeholderPath_eq_some.1 h
        rw [hs, clear_braced hpath]
        exact .drop hpath (ih _ hlt rest rfl)

/-- There is no other way to go through the text. -/
theorem Cleared.eq_clear (h : Cleared s u) : u = clear s := by
  induction h with
  | nil => exact clear_nil.symm
  | keep hr _ ih => rw [clear_cons hr, ih]
  | drop hpath _ ih => rw [clear_braced hpath, ih]

/-- Clearing makes no text longer. -/
theorem Cleared.length_le (h : Cleared s u) : u.length ≤ s.length := by
  induction h with
  | nil => exact Nat.le_refl _
  | keep _ _ ih => simpa using ih
  | drop _ _ ih => rw [List.length_append]; omega

/-- Without a placeholder in the text none is read. -/
theorem silent_of_not_occurs (h : ¬ Occurs s) : Silent placeholderPath.read s [] := by
  rintro w - ⟨a, rfl⟩
  cases hr : placeholderPath.read (w ++ []) with
  | none => rfl
  | some x =>
    obtain ⟨hpath, hfront, hw⟩ := placeholderPath_eq_some.1 hr
    rw [List.append_nil] at hw
    exact absurd ⟨a, _, x.2.2, hpath, by rw [hw, hfront, List.append_assoc]⟩ h

/-- Where nothing was taken out, there was no placeholder. -/
theorem Cleared.not_occurs (h : Cleared s u) (hlen : u.length = s.length) : ¬ Occurs s := by
  induction h with
  | nil => rintro ⟨a, path, b, -, h⟩; simp [braced, opening] at h
  | @keep c s u hr _ ih =>
    rintro ⟨a, path, b, hpath, he⟩
    cases a with
    | nil =>
      rw [he, List.nil_append, read_braced hpath] at hr
      cases hr
    | cons d a =>
      obtain ⟨-, rfl⟩ := List.cons.inj he
      exact ih (by simpa using hlen) ⟨a, path, b, hpath, rfl⟩
  | @drop path s u _ hc _ =>
    have hle := hc.length_le
    have hpos : 0 < (braced path).length := List.length_pos_iff.2 (braced_ne_nil path)
    rw [List.length_append] at hlen
    omega

/-- A text is left alone exactly when no placeholder stands in it. -/
theorem clear_eq_self_iff (s : List Char) : clear s = s ↔ ¬ Occurs s := by
  constructor
  · intro h
    exact (cleared_clear s).not_occurs (by rw [h])
  · intro h
    have := Recogniser.replace_append_of_silent (fun _ _ => []) (silent_of_not_occurs h)
    rw [List.append_nil, Recogniser.replace_nil, List.append_nil] at this
    exact this

/-! ### What is left has a placeholder only where one was severed -/

/-- Where what is left of a text can be cut in two, so can the text. -/
theorem Cleared.split (h : Cleared s (u ++ v)) :
    ∃ a b, s = a ++ b ∧ Strewn a u ∧ Cleared b v := by
  generalize hw : u ++ v = w at h
  induction h generalizing u with
  | nil =>
    obtain ⟨rfl, rfl⟩ := List.append_eq_nil_iff.1 hw
    exact ⟨[], [], rfl, .nil, .nil⟩
  | @keep c s w hr hc ih =>
    cases u with
    | nil =>
      rw [List.nil_append] at hw
      exact ⟨[], c :: s, rfl, .nil, hw ▸ .keep hr hc⟩
    | cons d u =>
      obtain ⟨rfl, hw'⟩ := List.cons.inj hw
      obtain ⟨a, b, rfl, ha, hb⟩ := ih hw'
      exact ⟨d :: a, b, rfl, .keep d ha, hb⟩
  | @drop path s w hpath _ ih =>
    obtain ⟨a, b, rfl, ha, hb⟩ := ih hw
    exact ⟨braced path ++ a, b, by rw [List.append_assoc], .insert hpath ha, hb⟩

/-- A character that is left was kept, and what stood before it were placeholders. -/
theorem Cleared.split_cons (h : Cleared s (c :: v)) :
    ∃ a b, s = a ++ c :: b ∧ Strewn a [] ∧ placeholderPath.read (c :: b) = none ∧ Cleared b v := by
  generalize hw : c :: v = w at h
  induction h with
  | nil => cases hw
  | @keep d s w hr hc _ =>
    obtain ⟨rfl, rfl⟩ := List.cons.inj hw
    exact ⟨[], s, rfl, .nil, hr, hc⟩
  | @drop path s w hpath _ ih =>
    obtain ⟨a, b, rfl, ha, hr, hb⟩ := ih hw
    exact ⟨braced path ++ a, b, by rw [List.append_assoc], .insert hpath ha, hr, hb⟩

/-- Texts with placeholders strewn among them, one after the other. -/
theorem Strewn.append (h : Strewn s u) (h' : Strewn t v) : Strewn (s ++ t) (u ++ v) := by
  induction h with
  | nil => exact h'
  | keep c _ ih => exact .keep c ih
  | insert hpath _ ih => rw [List.append_assoc]; exact .insert hpath ih

theorem braced_append (path s : List Char) :
    braced path ++ s = '{' :: ('{' :: (path ++ ['}']) ++ ('}' :: s)) := by
  simp [braced, opening, closing]

/-- **A placeholder that is left** was severed by others. -/
theorem severed_of_occurs_clear (h : Occurs (clear s)) : Severed s := by
  obtain ⟨x, path, y, hpath, he⟩ := h
  have hc := cleared_clear s
  rw [he, List.append_assoc] at hc
  obtain ⟨a, b, rfl, -, hb⟩ := hc.split
  rw [braced_append] at hb
  -- its braces were kept, and nothing was read at the first of them
  obtain ⟨ins, b, rfl, -, hread, hb⟩ := hb.split_cons
  obtain ⟨m, b, rfl, hm, hb⟩ := hb.split
  obtain ⟨ins', b, rfl, hins', -, -⟩ := hb.split_cons
  refine ⟨a ++ ins, m ++ ins', b, path, hpath, by simp, ?_, ?_⟩
  · simpa using hm.append hins'
  · intro hwhole
    rw [← List.append_assoc, hwhole, ← braced_append, read_braced hpath] at hread
    cases hread

/-! ### A severed placeholder is put together -/

/-- A placeholder begins with a brace. -/
theorem read_of_ne (h : c ≠ '{') (s : List Char) : placeholderPath.read (c :: s) = none := by
  cases hr : placeholderPath.read (c :: s) with
  | none => rfl
  | some x =>
    obtain ⟨d, t, hs, -⟩ := read_begins hr
    exact absurd (List.cons.inj hs).1 h

/-- A third brace is not part of a placeholder. -/
theorem read_third_brace (c d : Char) (s : List Char) :
    placeholderPath.read (c :: d :: '{' :: s) = none := by
  cases hr : placeholderPath.read (c :: d :: '{' :: s) with
  | none => rfl
  | some x =>
    obtain ⟨e, t, hs, he⟩ := read_begins hr
    simp only [List.cons.injEq] at hs
    obtain ⟨-, -, rfl, -⟩ := hs
    exact absurd he (by decide)

/-- What is put into a text without opening braces is all that is dropped from it. -/
theorem Strewn.cleared_append (h : Strewn m u) (hu : '{' ∉ u) (hs : Cleared s v) :
    Cleared (m ++ s) (u ++ v) := by
  induction h with
  | nil => exact hs
  | keep c _ ih =>
    rw [List.mem_cons, not_or] at hu
    exact .keep (read_of_ne (Ne.symm hu.1) _) (ih hu.2)
  | insert hpath _ ih =>
    rw [List.append_assoc]
    exact .drop hpath (ih hu)

/-- In front of a character there are only placeholders that were put there. -/
theorem Strewn.split_cons (h : Strewn m (c :: u)) :
    ∃ a b, m = a ++ c :: b ∧ Strewn a [] ∧ Strewn b u := by
  generalize hw : c :: u = w at h
  induction h with
  | nil => cases hw
  | keep d h _ =>
    obtain ⟨rfl, rfl⟩ := List.cons.inj hw
    exact ⟨[], _, rfl, .nil, h⟩
  | @insert path _ _ hpath _ ih =>
    obtain ⟨a, b, rfl, ha, hb⟩ := ih hw
    exact ⟨braced path ++ a, b, by rw [List.append_assoc], .insert hpath ha, hb⟩

/-- Where anything was put in, the first of it begins with a brace. -/
theorem Strewn.begins (h : Strewn m u) (hne : m ≠ u) : ∃ x z, m = x ++ '{' :: z ∧ x <+: u := by
  induction h with
  | nil => exact absurd rfl hne
  | @keep m u c _ ih =>
    obtain ⟨x, z, rfl, hx⟩ := ih fun he => hne (by rw [he])
    exact ⟨c :: x, z, rfl, List.cons_prefix_cons.2 ⟨rfl, hx⟩⟩
  | @insert path m u _ _ _ =>
    exact ⟨[], _, by rw [braced_append]; rfl, List.nil_prefix⟩

/-- A placeholder does not reach into two braces, but ends before them. -/
theorem braced_of_append (hpath : isPath path = true) {rest : List Char}
    (h : a ++ '{' :: '{' :: s = braced path ++ rest) (ha : a ≠ []) : ∃ b, a = braced path ++ b := by
  obtain ⟨c, a, rfl⟩ := List.exists_cons_of_ne_nil ha
  have hr := read_braced hpath rest
  rw [← h] at hr
  rcases List.append_eq_append_iff.1 h with ⟨w, hw, hs⟩ | ⟨b, hb, -⟩
  · cases w with
    | nil => exact ⟨[], by simpa using hw.symm⟩
    | cons d w =>
      obtain ⟨rfl, -⟩ := List.cons.inj hs
      have hin : '{' ∉ path ++ closing := by
        simp [closing, opening_not_mem_of_isPath hpath]
      cases a with
      | nil =>
        rw [List.singleton_append, read_third_brace] at hr
        cases hr
      | cons e a =>
        have : path ++ closing = a ++ '{' :: w := by
          simpa [braced, opening] using (List.cons.inj (List.cons.inj hw).2).2
        exact absurd (by rw [this]; simp) hin
  · exact ⟨b, hb⟩

/-- A text that begins with two braces is cleared alike behind every other text. -/
theorem Cleared.prepend (h : Cleared ('{' :: '{' :: s) u) (a : List Char) :
    ∃ x, Cleared (a ++ '{' :: '{' :: s) (x ++ u) := by
  induction hn : a.length using Nat.strongRecOn generalizing a with
  | ind n ih =>
    subst hn
    cases a with
    | nil => exact ⟨[], h⟩
    | cons c a =>
      cases hr : placeholderPath.read (c :: a ++ '{' :: '{' :: s) with
      | none =>
        obtain ⟨x, hx⟩ := ih _ (by simp) a rfl
        exact ⟨c :: x, .keep hr hx⟩
      | some x =>
        obtain ⟨path, front, rest⟩ := x
        obtain ⟨hpath, rfl, hs⟩ := placeholderPath_eq_some.1 hr
        -- what is read here ends before the two braces
        obtain ⟨b, hb⟩ := braced_of_append hpath hs (by simp)
        obtain ⟨x, hx⟩ := ih b.length (by
          rw [hb, List.length_append]
          have := List.length_pos_iff.2 (braced_ne_nil path.toList)
          omega) b rfl
        rw [hb, List.append_assoc]
        exact ⟨x, .drop hpath hx⟩

/-- The first brace of a severed placeholder is kept. -/
theorem read_severed {n : List Char} (hpath : isPath path = true) (hn : Strewn n (path ++ ['}']))
    (hne : n ≠ path ++ ['}']) (b : List Char) :
    placeholderPath.read ('{' :: '{' :: (n ++ '}' :: b)) = none := by
  cases hr : placeholderPath.read ('{' :: '{' :: (n ++ '}' :: b)) with
  | none => rfl
  | some r =>
    obtain ⟨other, front, rest⟩ := r
    obtain ⟨hother, rfl, hs⟩ := placeholderPath_eq_some.1 hr
    obtain ⟨x, z, rfl, hx⟩ := hn.begins hne
    have hs : x ++ '{' :: (z ++ '}' :: b) = other.toList ++ closing ++ rest := by
      simpa [braced, opening] using hs
    have hopen : '{' ∉ other.toList ++ closing := by
      simp [closing, opening_not_mem_of_isPath hother]
    -- the other placeholder would end before anything that was put in, with two closing braces
    have hcount : x.count '}' ≤ 1 := by
      have hle := hx.sublist.count_le '}'
      rw [List.count_append, List.count_eq_zero.2 (closing_not_mem_of_isPath hpath)] at hle
      simpa using hle
    rcases List.append_eq_append_iff.1 hs with ⟨w, hw, hrest⟩ | ⟨w, hw, -⟩
    · cases w with
      | nil =>
        rw [← List.append_nil x, ← hw, List.count_append] at hcount
        simp [closing] at hcount
      | cons d w =>
        obtain ⟨rfl, -⟩ := List.cons.inj hrest
        exact absurd (by rw [hw]; simp) hopen
    · rw [hw, List.count_append, List.count_append] at hcount
      have : closing.count '}' = 2 := by decide
      omega

/-- A brace in front of a text without braces begins no placeholder, whatever is strewn into the text.
-/
theorem read_strewn (h : Strewn m u) (hne : u ≠ []) (hu : '{' ∉ u) (s : List Char) :
    placeholderPath.read ('{' :: (m ++ s)) = none := by
  cases h with
  | nil => exact absurd rfl hne
  | keep c _ =>
    rw [List.mem_cons, not_or] at hu
    cases hr : placeholderPath.read ('{' :: (c :: _ ++ s)) with
    | none => rfl
    | some x =>
      obtain ⟨d, t, hs, -⟩ := read_begins hr
      simp only [List.cons_append, List.cons.injEq] at hs
      exact absurd hs.2.1.symm hu.1
  | insert _ _ =>
    rw [List.append_assoc, braced_append]
    exact read_third_brace _ _ _

/-- **A severed placeholder is left**: its braces are kept, and what severs it is dropped. -/
theorem occurs_clear_of_severed (h : Severed s) : Occurs (clear s) := by
  obtain ⟨a, m, b, path, hpath, rfl, hm, hne⟩ := h
  obtain ⟨ins, n, rfl, hins, hn⟩ := hm.split_cons
  have hinner : '{' ∉ path ++ ['}'] := by simp [opening_not_mem_of_isPath hpath]
  -- from the back to the front: the last brace, the second one and the first one are kept
  have hlast : Cleared ('}' :: b) ('}' :: clear b) :=
    .keep (read_of_ne (by decide) b) (cleared_clear b)
  have hsecond : Cleared ('{' :: (n ++ '}' :: b)) ('{' :: (path ++ ['}'] ++ '}' :: clear b)) :=
    .keep (read_strewn hn (by simp) hinner _) (hn.cleared_append hinner hlast)
  have hfirst : ∃ r, Cleared ('{' :: '{' :: r) (braced path ++ clear b) ∧
      '{' :: (ins ++ '{' :: n ++ '}' :: b) = '{' :: '{' :: r := by
    rw [braced_append, List.append_assoc]
    cases hins with
    | nil =>
      have hn' : n ≠ path ++ ['}'] := fun he => hne (by rw [he]; rfl)
      exact ⟨_, .keep (read_severed hpath hn hn' b) hsecond, rfl⟩
    | @insert other ins _ hother hins =>
      have hrest := (Strewn.insert hother hins).cleared_append List.not_mem_nil hsecond
      have hread := read_third_brace '{' '{'
        ((other ++ ['}']) ++ '}' :: (ins ++ '{' :: (n ++ '}' :: b)))
      rw [List.append_assoc, braced_append] at hrest ⊢
      exact ⟨_, .keep hread hrest, rfl⟩
  obtain ⟨r, hr, he⟩ := hfirst
  obtain ⟨x, hx⟩ := hr.prepend a
  rw [he, ← hx.eq_clear]
  exact ⟨x, path, clear b, hpath, by rw [List.append_assoc]⟩

/-- A placeholder is left after clearing exactly where one was severed. -/
theorem occurs_clear_iff_severed (s : List Char) : Occurs (clear s) ↔ Severed s :=
  ⟨severed_of_occurs_clear, occurs_clear_of_severed⟩

/-- **What clearing leaves.** Clearing a second time changes nothing exactly where no placeholder was
severed, and a placeholder reaches the rendered text exactly where one was severed when the last pass
began. -/
theorem placeholder_left_iff_severed (s : List Char) (missing : MissingBlocks) (template : String)
    (context : Context) :
    (clear (clear s) = clear s ↔ ¬ Severed s) ∧ (Occurs (clear s) ↔ Severed s) ∧
      (Occurs (render missing template context).toList ↔
        Severed (expanded missing template context)) := by
  refine ⟨?_, occurs_clear_iff_severed s, ?_⟩
  · rw [clear_eq_self_iff, occurs_clear_iff_severed]
  · rw [render_eq_clear, String.toList_ofList, occurs_clear_iff_severed]

/-- Clearing leaves a placeholder in `{`, `{{x}}`, `{y}}`, and it is rendered. -/
theorem severed_placeholder_is_left :
    clear "\x7b\x7b\x7bx\x7d\x7d\x7by\x7d\x7d".toList = braced ['y'] ∧
      clear (clear "\x7b\x7b\x7bx\x7d\x7d\x7by\x7d\x7d".toList) ≠
        clear "\x7b\x7b\x7bx\x7d\x7d\x7by\x7d\x7d".toList ∧
      Occurs (render .preserve "\x7b\x7b\x7bx\x7d\x7d\x7by\x7d\x7d" .empty).toList := by
  refine ⟨by decide +kernel, by decide +kernel, [], ['y'], [], by decide, ?_⟩
  decide +kernel

end Placeholder

end Stencil
