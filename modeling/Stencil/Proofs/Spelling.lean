import Stencil.Proofs.TagReading

/-!
# How opening tags are written

The opening tag of a loop is written in one way for each choice of blanks, but the opening tag of a
comparison can be taken apart in several ways: blanks in front of the operand might belong to it, and so
might blanks behind it, and a quote might open the operand or close it. Which way counts is a matter of
preference, and these are the texts that the readers of opening tags take, and the operands they make of
them.

* `Quotation`, `Quotation.Preferred`: the ways to take an operand apart, and the one that counts.
* `operand_eq_some_iff`: an operand is read wherever it can be taken apart, in the preferred way.
* `loopKey_eq_some_iff`, `condition_eq_some_iff`: the texts that are read as opening tags.
-/

namespace Stencil

open Text

variable {s t a b x y front rest : List Char} {g : Char → Bool} {c : Char}

/-! ### Runs of characters -/

/-- A text does not go on with a character of the kind. -/
def Stops (g : Char → Bool) (s : List Char) : Prop := ∀ c, s.head? = some c → g c = false

theorem stops_nil (g : Char → Bool) : Stops g [] := by
  intro c hc
  cases hc

theorem stops_cons : Stops g (c :: s) ↔ g c = false := by
  constructor
  · intro h
    exact h c rfl
  · intro h d hd
    obtain rfl : c = d := by simpa using hd
    exact h

theorem Stops.of_append (h : Stops g (s ++ t)) : Stops g s := by
  cases s with
  | nil => exact stops_nil g
  | cons c s => exact stops_cons.2 (stops_cons.1 h)

/-- A text that stops a run stops it with more text behind it, if that text stops it too. -/
theorem stops_append_cons (hs : Stops g s) (hc : g c = false) : Stops g (s ++ c :: t) := by
  cases s with
  | nil => exact stops_cons.2 hc
  | cons d s => exact stops_cons.2 (stops_cons.1 hs)

/-- Behind a longest run the run stops. -/
theorem stops_dropWhile (g : Char → Bool) (s : List Char) : Stops g (s.dropWhile g) := by
  intro c hc
  have hhead := List.head?_dropWhile_not g s
  rw [hc] at hhead
  simpa using hhead

/-- A run is as long as any front part of its kind. -/
theorem length_le_of_stops (ha : ∀ c ∈ a, g c = true) (hy : Stops g y) (h : a ++ x = b ++ y) :
    a.length ≤ b.length := by
  rcases List.append_eq_append_iff.1 h with ⟨d, rfl, -⟩ | ⟨d, rfl, rfl⟩
  · simp
  · cases d with
    | nil => simp
    | cons c d =>
      have hc : g c = true := ha c (by simp)
      rw [stops_cons.1 hy] at hc
      cases hc

namespace Text.Reader

variable {cs : List Char}

/-- A run is read as far as it goes. -/
theorem run_eq_some_iff : (run g).read s = some (cs, front, rest) ↔
    cs = front ∧ s = cs ++ rest ∧ (∀ c ∈ cs, g c = true) ∧ Stops g rest := by
  constructor
  · rintro ⟨⟩
    exact ⟨rfl, List.takeWhile_append_dropWhile.symm, List.all_eq_true.1 List.all_takeWhile,
      stops_dropWhile g s⟩
  · rintro ⟨rfl, rfl, hcs, hrest⟩
    have htake : rest.takeWhile g = [] := by
      cases rest with
      | nil => rfl
      | cons c rest => rw [List.takeWhile_cons, if_neg (by simp [stops_cons.1 hrest])]
    have hdrop : rest.dropWhile g = rest := by
      cases rest with
      | nil => rfl
      | cons c rest => rw [List.dropWhile_cons, if_neg (by simp [stops_cons.1 hrest])]
    unfold run
    simp only [List.takeWhile_append_of_pos hcs, List.dropWhile_append_of_pos hcs, htake, hdrop,
      List.append_nil]

/-- A run of at least one character is read as far as it goes. -/
theorem run1_eq_some_iff : (run1 g).read s = some (cs, front, rest) ↔
    cs = front ∧ s = cs ++ rest ∧ cs ≠ [] ∧ (∀ c ∈ cs, g c = true) ∧ Stops g rest := by
  have hread : (run1 g).read s = (run g >>= fun cs => do
      guard !cs.isEmpty
      return cs).read s := rfl
  rw [hread, bind_eq_some]
  constructor
  · rintro ⟨cs', x, mid, y, hx, hy, rfl⟩
    obtain ⟨rfl, rfl, hcs, hrest⟩ := run_eq_some_iff.1 hx
    rw [guard_bind_read] at hy
    split at hy
    · next hne =>
      obtain ⟨rfl, rfl, rfl⟩ := hy
      exact ⟨(List.append_nil _).symm, rfl, by simpa using hne, hcs, hrest⟩
    · cases hy
  · rintro ⟨rfl, rfl, hne, hcs, hrest⟩
    refine ⟨cs, cs, rest, [], run_eq_some_iff.2 ⟨rfl, rfl, hcs, hrest⟩, ?_, (List.append_nil _).symm⟩
    rw [guard_bind_read, if_pos (by simpa using hne)]
    rfl

/-- A character that may be missing is taken wherever it stands. -/
theorem optional_eq_some_iff {u : Unit} : (optional [c]).read s = some (u, front, rest) ↔
    front = [c] ∧ s = c :: rest ∨ front = [] ∧ s = rest ∧ s.head? ≠ some c := by
  have hnone : (exactly [c]).read s = none ↔ s.head? ≠ some c := by
    cases s with
    | nil => simp [exactly, after?]
    | cons d s => simp [exactly, after?, eq_comm]
  unfold optional
  rw [orElse_read, Option.or_eq_some_iff, exactly_eq_some, hnone]
  constructor
  · rintro (⟨rfl, rfl⟩ | ⟨hhead, ⟨⟩⟩)
    · exact .inl ⟨rfl, rfl⟩
    · exact .inr ⟨rfl, rfl, hhead⟩
  · rintro (⟨rfl, rfl⟩ | ⟨rfl, rfl, hhead⟩)
    · exact .inl ⟨rfl, rfl⟩
    · exact .inr ⟨hhead, rfl⟩

end Text.Reader

namespace Tag

variable {α : Type} {key : String}

/-- The end of a tag. -/
theorem exactly_closing_eq_some {x z : α} :
    (do .exactly closing; return x : Reader α).read s = some (z, front, rest) ↔
      z = x ∧ front = closing ∧ s = closing ++ rest := by
  rw [Reader.exactly_bind_eq_some]
  constructor
  · rintro ⟨mid, w, rfl, ⟨⟩, rfl⟩
    exact ⟨rfl, rfl, rfl⟩
  · rintro ⟨rfl, rfl, rfl⟩
    exact ⟨rest, [], rfl, rfl, rfl⟩

/-- No character of a key is a blank. -/
theorem isBlank_of_isKeyChar (h : isKeyChar c = true) : isBlank c = false := by
  have hrange : 0x2D ≤ c.toNat ∧ c.toNat ≤ 0x7A := by
    unfold isKeyChar Char.isAlphanum Char.isAlpha Char.isUpper Char.isLower Char.isDigit at h
    simp only [Char.reduceVal, ge_iff_le, UInt32.le_iff_toNat_le, UInt32.reduceToNat, Char.toNat_val,
      Bool.or_eq_true, Bool.and_eq_true, decide_eq_true_eq, beq_iff_eq] at h
    rcases h with (h | rfl) | rfl
    · omega
    · decide
    · decide
  rw [← Bool.not_eq_true]
  intro hblank
  unfold isBlank at hblank
  simp only [Bool.or_eq_true, Bool.and_eq_true, decide_eq_true_eq, beq_iff_eq] at hblank
  omega

/-- Blanks may stand in an operand. -/
theorem isOperandChar_of_isBlank (h : isBlank c = true) : isOperandChar c = true := by
  have hquote : c ≠ '"' := by rintro rfl; exact absurd h (by decide)
  have hbrace : c ≠ '}' := by rintro rfl; exact absurd h (by decide)
  simp [isOperandChar, hquote, hbrace]

/-! ### Operands -/

/-- Trimming makes no text longer. -/
theorem length_trimEnd_le (s : List Char) : (trimEnd s).length ≤ s.length := by
  obtain ⟨t, hs, -⟩ := trimEnd_append s
  have hlength := congrArg List.length hs
  rw [List.length_append] at hlength
  omega

/-- Trailing blanks are trimmed, however many there are. -/
theorem trimEnd_append_of_blank (h : ∀ c ∈ t, isBlank c = true) : trimEnd (s ++ t) = trimEnd s := by
  have hblank : ∀ c ∈ t.reverse, isBlank c = true := fun c hc => h c (List.mem_reverse.1 hc)
  unfold trimEnd
  rw [List.reverse_append, List.dropWhile_append_of_pos hblank]

/-- **A way to take an operand apart**: blanks, perhaps a quote, the operand itself, perhaps a quote, and
blanks. -/
structure Quotation (inner : List Char) where
  before : List Char
  quote : List Char
  operand : List Char
  unquote : List Char
  behind : List Char
  text_eq : inner = before ++ (quote ++ (operand ++ (unquote ++ behind)))
  blank_before : ∀ c ∈ before, isBlank c = true
  quote_eq : quote = [] ∨ quote = ['"']
  operand_char : ∀ c ∈ operand, isOperandChar c = true
  unquote_eq : unquote = [] ∨ unquote = ['"']
  blank_behind : ∀ c ∈ behind, isBlank c = true

namespace Quotation

variable {inner : List Char} {q q' : Quotation inner}

/-- **The way that counts** has all the blanks in front that it can have, then a quote if it can have
one, and then an operand as short as it can be. -/
def Preferred (q : Quotation inner) : Prop :=
  ∀ q' : Quotation inner, q'.before.length ≤ q.before.length ∧
    (q'.before.length = q.before.length → q'.quote.length ≤ q.quote.length ∧
      (q'.quote.length = q.quote.length → q.operand.length ≤ q'.operand.length))

/-- There is one operand to prefer. -/
theorem Preferred.operand_eq (h : q.Preferred) (h' : q'.Preferred) : q.operand = q'.operand := by
  have hbefore : q.before.length = q'.before.length := Nat.le_antisymm (h' q).1 (h q').1
  have hquote : q.quote.length = q'.quote.length :=
    Nat.le_antisymm ((h' q).2 hbefore).1 ((h q').2 hbefore.symm).1
  have hoperand : q.operand.length = q'.operand.length :=
    Nat.le_antisymm (((h q').2 hbefore.symm).2 hquote.symm) (((h' q).2 hbefore).2 hquote)
  have htext := q.text_eq.symm.trans q'.text_eq
  obtain ⟨-, htext⟩ := List.append_inj htext hbefore
  obtain ⟨-, htext⟩ := List.append_inj htext hquote
  exact (List.append_inj htext hoperand).1

/-- What a reader that goes from left to right makes of an operand. -/
structure Normal (q : Quotation inner) : Prop where
  stops : Stops isBlank (q.quote ++ (q.operand ++ (q.unquote ++ q.behind)))
  opens : q.quote = [] → Stops (· == '"') (q.operand ++ (q.unquote ++ q.behind))
  ends : q.unquote = [] → trimEnd (q.operand ++ q.behind) = q.operand

/-- An operand has no quote. -/
theorem quote_not_mem_of_operand (q : Quotation inner) : '"' ∉ q.operand := by
  intro hmem
  exact absurd (q.operand_char _ hmem) (by decide)

/-- Behind an operand there is at most the one quote that closes it. -/
theorem quote_not_mem_of_behind (q : Quotation inner) : '"' ∉ q.behind := by
  intro hmem
  exact absurd (q.blank_behind _ hmem) (by decide)

/-- What is taken apart in the normal way is taken apart in the preferred way. -/
theorem Normal.preferred (h : q.Normal) : q.Preferred := by
  intro q'
  have htext := q'.text_eq.symm.trans q.text_eq
  refine ⟨length_le_of_stops q'.blank_before h.stops htext, fun hbefore => ?_⟩
  obtain ⟨-, htext⟩ := List.append_inj htext hbefore
  refine ⟨?_, fun hquote => ?_⟩
  · rcases q'.quote_eq with hq' | hq'
    · simp [hq']
    · -- a quote stands here, and it is taken
      rcases q.quote_eq with hq | hq
      · have hopens := h.opens hq
        rw [hq, hq', List.nil_append] at htext
        rw [← htext] at hopens
        exact absurd (stops_cons.1 hopens) (by decide)
      · simp [hq, hq']
  · obtain ⟨-, htext⟩ := List.append_inj htext hquote
    rcases q.unquote_eq with hq | hq
    · -- no quote is behind the operand, so that all blanks are
      rw [hq, List.nil_append] at htext
      have hq' : q'.unquote = [] := by
        refine q'.unquote_eq.resolve_right fun hq' => ?_
        have hmem : '"' ∈ q.operand ++ q.behind := by
          rw [← htext, hq']
          simp
        rcases List.mem_append.1 hmem with hmem | hmem
        · exact q.quote_not_mem_of_operand hmem
        · exact q.quote_not_mem_of_behind hmem
      rw [hq', List.nil_append] at htext
      rw [← h.ends hq, ← htext, trimEnd_append_of_blank q'.blank_behind]
      exact length_trimEnd_le _
    · -- the quote behind the operand is taken by no blanks
      rw [hq] at htext
      rcases List.append_eq_append_iff.1 htext with ⟨d, hd, hrest⟩ | ⟨d, hd, -⟩
      · cases d with
        | nil => simp [hd]
        | cons c d =>
          have hc : c ≠ '"' := by
            rintro rfl
            exact q.quote_not_mem_of_operand (by simp [hd])
          rcases q'.unquote_eq with hq' | hq'
          · rw [hq', List.nil_append] at hrest
            exact absurd (by simp [hrest]) q'.quote_not_mem_of_behind
          · rw [hq'] at hrest
            exact absurd (List.cons.inj hrest).1.symm hc
      · simp [hd]

/-- Blanks at the end of an operand can be put behind it. -/
theorem exists_normal_of_opens (q : Quotation inner)
    (hstops : Stops isBlank (q.quote ++ (q.operand ++ (q.unquote ++ q.behind))))
    (hopens : q.quote = [] → Stops (· == '"') (q.operand ++ (q.unquote ++ q.behind))) :
    ∃ q' : Quotation inner, q'.Normal := by
  rcases q.unquote_eq with hq | hq
  · obtain ⟨t, ht, hblank⟩ := trimEnd_append (q.operand ++ q.behind)
    have htext := q.text_eq
    rw [hq, List.nil_append] at hstops hopens htext
    have hchar : ∀ c ∈ q.operand ++ q.behind, isOperandChar c = true := by
      intro c hc
      rcases List.mem_append.1 hc with hc | hc
      · exact q.operand_char c hc
      · exact isOperandChar_of_isBlank (q.blank_behind c hc)
    rw [ht] at hstops hopens htext hchar
    rw [List.all_eq_true] at hblank
    refine ⟨⟨q.before, q.quote, trimEnd (q.operand ++ q.behind), [], t, htext, q.blank_before,
      q.quote_eq, fun c hc => hchar c (List.mem_append_left t hc), .inl rfl, hblank⟩, hstops, hopens,
      fun _ => ?_⟩
    show trimEnd (trimEnd (q.operand ++ q.behind) ++ t) = _
    rw [← ht]
  · refine ⟨q, hstops, hopens, fun hnone => ?_⟩
    rw [hq] at hnone
    cases hnone

/-- Whatever can be taken apart can be taken apart from left to right. -/
theorem exists_normal (q : Quotation inner) : ∃ q' : Quotation inner, q'.Normal := by
  rcases q.quote_eq with hq | hq
  · -- blanks that begin the operand go in front of it
    have htext := q.text_eq
    have hoperand : q.operand.takeWhile isBlank ++ q.operand.dropWhile isBlank = q.operand :=
      List.takeWhile_append_dropWhile
    have hbefore : ∀ c ∈ q.before ++ q.operand.takeWhile isBlank, isBlank c = true := by
      intro c hc
      exact (List.mem_append.1 hc).elim (q.blank_before c) (List.all_eq_true.1 List.all_takeWhile c)
    have hchar : ∀ c ∈ q.operand.dropWhile isBlank, isOperandChar c = true := by
      intro c hc
      exact q.operand_char c (hoperand ▸ List.mem_append_right _ hc)
    have hstops := stops_dropWhile isBlank q.operand
    rw [hq, List.nil_append, ← hoperand, List.append_assoc, ← List.append_assoc q.before] at htext
    generalize q.before ++ q.operand.takeWhile isBlank = before at htext hbefore
    cases hrest : q.operand.dropWhile isBlank with
    | nil =>
      -- there are but blanks and perhaps a quote, which is the one in front then
      rw [hrest, List.nil_append] at htext
      rcases q.unquote_eq with hu | hu
      · rw [hu, List.nil_append] at htext
        have hblank : ∀ c ∈ before ++ q.behind, isBlank c = true := by
          intro c hc
          exact (List.mem_append.1 hc).elim (hbefore c) (q.blank_behind c)
        let q' : Quotation inner := ⟨before ++ q.behind, [], [], [], [], by simpa using htext, hblank,
          .inl rfl, nofun, .inl rfl, nofun⟩
        exact q'.exists_normal_of_opens (stops_nil _) fun _ => stops_nil _
      · rw [hu] at htext
        let q' : Quotation inner := ⟨before, ['"'], [], [], q.behind, htext, hbefore, .inr rfl, nofun,
          .inl rfl, q.blank_behind⟩
        exact q'.exists_normal_of_opens (stops_cons.2 (by decide)) nofun
    | cons c operand =>
      rw [hrest] at htext hchar hstops
      have hquote : (c == '"') = false := by
        have hc := hchar c List.mem_cons_self
        simp only [isOperandChar, Bool.and_eq_true, bne_iff_ne] at hc
        simpa using hc.1
      let q' : Quotation inner := ⟨before, [], c :: operand, q.unquote, q.behind, htext, hbefore,
        .inl rfl, hchar, q.unquote_eq, q.blank_behind⟩
      exact q'.exists_normal_of_opens (stops_cons.2 (stops_cons.1 hstops)) fun _ => stops_cons.2 hquote
  · refine q.exists_normal_of_opens ?_ fun hnone => ?_
    · rw [hq]
      exact stops_cons.2 (by decide)
    · rw [hq] at hnone
      cases hnone

end Quotation

/-- Reads what stands behind the characters of an operand. -/
def operandEnd (cs : List Char) : Reader String :=
  (do
    .exactly ['"']
    let _ ← Reader.run isBlank
    .exactly closing
    return .ofList cs) <|> (do
    .exactly closing
    return .ofList (trimEnd cs))

/-- An operand with its end as a reader of its own. -/
theorem operand_read (s : List Char) : operand.read s = (do
    let _ ← Reader.run isBlank
    .optional ['"']
    let cs ← Reader.run isOperandChar
    operandEnd cs : Reader String).read s := rfl

variable {inner : List Char}

/-- What is read as an operand has been taken apart from left to right. -/
theorem exists_normal_of_operand {t : String} (h : operand.read s = some (t, front, rest)) :
    ∃ inner, ∃ q : Quotation inner, q.Normal ∧ t = .ofList q.operand ∧ front = inner ++ closing := by
  rw [operand_read] at h
  obtain ⟨before, _, mid, _, hbefore, h1, rfl⟩ := Reader.bind_eq_some.1 h
  obtain ⟨_, quote, _, _, hquote, h2, rfl⟩ := Reader.bind_eq_some.1 h1
  obtain ⟨cs, _, tail, _, hcs, h3, rfl⟩ := Reader.bind_eq_some.1 h2
  obtain ⟨rfl, rfl, hblank, hstops⟩ := Reader.run_eq_some_iff.1 hbefore
  obtain ⟨rfl, rfl, hchar, -⟩ := Reader.run_eq_some_iff.1 hcs
  have hmid : mid = quote ++ (cs ++ tail) ∧ (quote = [] ∨ quote = ['"']) ∧
      (quote = [] → Stops (· == '"') (cs ++ tail)) := by
    rcases Reader.optional_eq_some_iff.1 hquote with ⟨rfl, rfl⟩ | ⟨rfl, rfl, hhead⟩
    · exact ⟨rfl, .inr rfl, nofun⟩
    · refine ⟨rfl, .inl rfl, fun _ c hc => ?_⟩
      rw [hc] at hhead
      simpa using hhead
  obtain ⟨rfl, hquote_eq, hopens⟩ := hmid
  rw [operandEnd, Reader.orElse_read, Option.or_eq_some_iff] at h3
  rcases h3 with h3 | ⟨-, h3⟩
  · -- up to a quote, with blanks behind it
    obtain ⟨_, _, rfl, h4, rfl⟩ := Reader.exactly_bind_eq_some.1 h3
    obtain ⟨behind, _, _, _, hbehind, h5, rfl⟩ := Reader.bind_eq_some.1 h4
    obtain ⟨rfl, rfl, hblank', -⟩ := Reader.run_eq_some_iff.1 hbehind
    obtain ⟨rfl, rfl, rfl⟩ := exactly_closing_eq_some.1 h5
    let q : Quotation (before ++ (quote ++ (cs ++ (['"'] ++ behind)))) :=
      ⟨before, quote, cs, ['"'], behind, rfl, hblank, hquote_eq, hchar, .inr rfl, hblank'⟩
    refine ⟨_, q, ⟨?_, ?_, nofun⟩, rfl, by simp⟩
    · exact Stops.of_append (t := closing ++ rest) (by simpa [q] using hstops)
    · intro hq
      exact Stops.of_append (t := closing ++ rest) (by simpa [q] using hopens hq)
  · -- without a quote, the blanks at the end are dropped
    obtain ⟨rfl, rfl, rfl⟩ := exactly_closing_eq_some.1 h3
    obtain ⟨behind, hbehind, hblank'⟩ := trimEnd_append cs
    have hchar' : ∀ c ∈ trimEnd cs, isOperandChar c = true := by
      intro c hc
      exact hchar c (hbehind ▸ List.mem_append_left behind hc)
    let q : Quotation (before ++ (quote ++ cs)) :=
      ⟨before, quote, trimEnd cs, [], behind, by rw [List.nil_append, ← hbehind], hblank, hquote_eq,
        hchar', .inl rfl, List.all_eq_true.1 hblank'⟩
    have hcs_eq : q.operand ++ (q.unquote ++ q.behind) = cs := hbehind.symm
    refine ⟨_, q, ⟨?_, ?_, fun _ => ?_⟩, rfl, by simp⟩
    · rw [hcs_eq]
      exact Stops.of_append (t := closing ++ rest) (by simpa using hstops)
    · intro hq
      rw [hcs_eq]
      exact Stops.of_append (hopens hq)
    · exact congrArg trimEnd hbehind.symm

/-- An operand that is spelt in the normal way is read back. -/
theorem operand_of_normal {q : Quotation inner} (h : q.Normal) (rest : List Char) :
    operand.read (inner ++ closing ++ rest) = some (.ofList q.operand, inner ++ closing, rest) := by
  have hbrace : ∀ {g : Char → Bool} {s : List Char}, g '}' = false → Stops g s →
      Stops g (s ++ (closing ++ rest)) := fun hg hs => stops_append_cons hs hg
  have hbefore : (Reader.run isBlank).read (inner ++ closing ++ rest) = some (q.before, q.before,
      q.quote ++ (q.operand ++ (q.unquote ++ q.behind)) ++ (closing ++ rest)) := by
    have htext := congrArg (· ++ (closing ++ rest)) q.text_eq
    exact Reader.run_eq_some_iff.2 ⟨rfl, by simpa using htext, q.blank_before,
      hbrace (by decide) h.stops⟩
  have hquote : (Reader.optional ['"']).read
      (q.quote ++ (q.operand ++ (q.unquote ++ q.behind)) ++ (closing ++ rest)) =
      some ((), q.quote, q.operand ++ (q.unquote ++ q.behind) ++ (closing ++ rest)) := by
    refine Reader.optional_eq_some_iff.2 ?_
    rcases q.quote_eq with hq | hq
    · refine .inr ⟨hq, by rw [hq, List.nil_append], fun hhead => ?_⟩
      rw [hq, List.nil_append] at hhead
      exact absurd (hbrace (by decide) (h.opens hq) _ hhead) (by decide)
    · exact .inl ⟨hq, by rw [hq]; simp⟩
  have hread : ∀ {cs tail y : List Char},
      (Reader.run isOperandChar).read (q.operand ++ (q.unquote ++ q.behind) ++ (closing ++ rest)) =
        some (cs, cs, tail) →
      (operandEnd cs).read tail = some (.ofList q.operand, y, rest) →
      operand.read (inner ++ closing ++ rest) = some (.ofList q.operand, inner ++ closing, rest) := by
    intro cs tail y hcs hend
    have hread : operand.read (inner ++ closing ++ rest) =
        some (.ofList q.operand, q.before ++ (q.quote ++ (cs ++ y)), rest) := by
      rw [operand_read]
      refine Reader.bind_eq_some.2 ⟨_, _, _, _, hbefore, ?_, rfl⟩
      refine Reader.bind_eq_some.2 ⟨_, _, _, _, hquote, ?_, rfl⟩
      exact Reader.bind_eq_some.2 ⟨_, _, _, _, hcs, hend, rfl⟩
    rw [hread, ← List.append_cancel_right (operand.faithful hread)]
  rcases q.unquote_eq with hq | hq
  · -- the blanks behind the operand are read with it, and dropped
    have hchar : ∀ c ∈ q.operand ++ q.behind, isOperandChar c = true := by
      intro c hc
      exact (List.mem_append.1 hc).elim (q.operand_char c) fun hc =>
        isOperandChar_of_isBlank (q.blank_behind c hc)
    rw [hq, List.nil_append] at hread
    refine hread (Reader.run_eq_some_iff.2 ⟨rfl, rfl, hchar, stops_cons.2 (by decide)⟩)
      (y := closing) ?_
    rw [operandEnd, Reader.orElse_read, h.ends hq]
    rfl
  · rw [hq, List.append_assoc, List.append_assoc] at hread
    refine hread (Reader.run_eq_some_iff.2 ⟨rfl, rfl, q.operand_char, stops_cons.2 (by decide)⟩)
      (y := '"' :: (q.behind ++ closing)) ?_
    rw [operandEnd, Reader.orElse_read, Option.or_eq_some_iff]
    refine .inl (Reader.exactly_bind_eq_some.2 ⟨_, _, rfl, Reader.bind_eq_some.2 ⟨_, _, _, _,
      Reader.run_eq_some_iff.2 ⟨rfl, rfl, q.blank_behind, stops_cons.2 (by decide)⟩,
      exactly_closing_eq_some.2 ⟨rfl, rfl, rfl⟩, rfl⟩, rfl⟩)

/-- **An operand is read wherever one stands in front of closing braces**, and it is the preferred one. -/
theorem operand_eq_some_iff {t : String} : operand.read s = some (t, front, rest) ↔
    ∃ inner, ∃ q : Quotation inner, q.Preferred ∧ t = .ofList q.operand ∧ front = inner ++ closing ∧
      s = front ++ rest := by
  constructor
  · intro h
    obtain ⟨inner, q, hq, ht, hfront⟩ := exists_normal_of_operand h
    exact ⟨inner, q, hq.preferred, ht, hfront, operand.faithful h⟩
  · rintro ⟨inner, q, hq, rfl, rfl, rfl⟩
    obtain ⟨q', hq'⟩ := q.exists_normal
    rw [operand_of_normal hq', hq.operand_eq hq'.preferred]

/-! ### Opening tags -/

/-- A key is one key character or more. -/
def IsKey (s : List Char) : Prop := s ≠ [] ∧ ∀ c ∈ s, isKeyChar c = true

/-- Blanks in front of a key end where it begins. -/
theorem IsKey.stops (h : IsKey s) (t : List Char) : Stops isBlank (s ++ t) := by
  obtain ⟨c, cs, rfl⟩ := List.exists_cons_of_ne_nil h.1
  exact stops_cons.2 (isBlank_of_isKeyChar (h.2 c List.mem_cons_self))

/-- **The opening tag of a loop** has blanks between the word and the key, and nowhere else. -/
def LoopTag (key : String) (tag : List Char) : Prop :=
  IsKey key.toList ∧ ∃ blanks, blanks ≠ [] ∧ (∀ c ∈ blanks, isBlank c = true) ∧
    tag = braced ("#each".toList ++ (blanks ++ key.toList))

/-- What stands behind the key of a condition and the blanks behind the key. -/
inductive Compares : Option Comparison → List Char → Prop where
  | bare : Compares none []
  | compared {inner : List Char} (op : Operator) {q : Quotation inner} : q.Preferred →
    Compares (some ⟨op, .ofList q.operand⟩) (op.symbol.toList ++ inner)

/-- **The opening tag of a conditional.** -/
def ConditionTag (c : Condition) (tag : List Char) : Prop :=
  IsKey c.key.toList ∧ ∃ blanks blanks' compared, blanks ≠ [] ∧ (∀ c ∈ blanks, isBlank c = true) ∧
    (∀ c ∈ blanks', isBlank c = true) ∧ Compares c.comparison compared ∧
    tag = braced ("#if".toList ++ (blanks ++ (c.key.toList ++ (blanks' ++ compared))))

/-- The opening tag of a loop, part by part. -/
theorem loopKey_read (s : List Char) : loopKey.read s = (do
    .exactly (opening ++ "#each".toList)
    let _ ← Reader.run1 isBlank
    let key ← Reader.run1 isKeyChar
    .exactly closing
    return String.ofList key : Reader String).read s := rfl

/-- **What is read as the opening tag of a loop.** -/
theorem loopKey_eq_some_iff : loopKey.read s = some (key, front, rest) ↔
    LoopTag key front ∧ s = front ++ rest := by
  rw [loopKey_read, Reader.exactly_bind_eq_some]
  constructor
  · rintro ⟨_, _, rfl, h1, rfl⟩
    obtain ⟨blanks, _, _, _, hblanks, h2, rfl⟩ := Reader.bind_eq_some.1 h1
    obtain ⟨cs, _, _, _, hcs, h3, rfl⟩ := Reader.bind_eq_some.1 h2
    obtain ⟨rfl, rfl, hne, hblank, -⟩ := Reader.run1_eq_some_iff.1 hblanks
    obtain ⟨rfl, rfl, hkey⟩ := Reader.run1_eq_some_iff.1 hcs
    obtain ⟨rfl, rfl, rfl⟩ := exactly_closing_eq_some.1 h3
    unfold LoopTag
    rw [String.toList_ofList]
    exact ⟨⟨⟨hkey.1, hkey.2.1⟩, blanks, hne, hblank, by simp [braced]⟩, by simp⟩
  · rintro ⟨⟨hkey, blanks, hne, hblank, rfl⟩, rfl⟩
    refine ⟨blanks ++ (key.toList ++ (closing ++ rest)), blanks ++ (key.toList ++ closing),
      by simp [braced], ?_, by simp [braced]⟩
    refine Reader.bind_eq_some.2 ⟨_, _, _, _,
      Reader.run1_eq_some_iff.2 ⟨rfl, rfl, hne, hblank, hkey.stops _⟩, ?_, rfl⟩
    refine Reader.bind_eq_some.2 ⟨_, _, _, _,
      Reader.run1_eq_some_iff.2 ⟨rfl, rfl, hkey.1, hkey.2, stops_cons.2 (by decide)⟩, ?_, rfl⟩
    exact exactly_closing_eq_some.2 ⟨String.ofList_toList.symm, rfl, rfl⟩

/-- A comparison is read wherever it can be taken apart, in the preferred way. -/
theorem comparison_eq_some_iff {t : Comparison} : comparison.read s = some (t, front, rest) ↔
    ∃ compared, Compares (some t) compared ∧ front = compared ++ closing ∧ s = front ++ rest := by
  have hread : comparison.read s = (do
      let operator ← operator
      let operand ← operand
      return (⟨operator, operand⟩ : Comparison) : Reader Comparison).read s := rfl
  rw [hread, Reader.bind_eq_some]
  constructor
  · rintro ⟨op, x, mid, _, hop, h, rfl⟩
    obtain ⟨text, _, _, _, htext, hpure, rfl⟩ := Reader.bind_eq_some.1 h
    obtain ⟨rfl, rfl, rfl⟩ := hpure
    obtain rfl := operator.faithful hop
    obtain rfl := operator_eq_some hop
    obtain ⟨inner, q, hq, rfl, rfl, rfl⟩ := operand_eq_some_iff.1 htext
    exact ⟨_, .compared op hq, by simp, by simp⟩
  · rintro ⟨compared, hcompared, rfl, rfl⟩
    cases hcompared with
    | @compared inner op q hq =>
      have htext : operand.read (inner ++ closing ++ rest) =
          some (.ofList q.operand, inner ++ closing, rest) :=
        operand_eq_some_iff.2 ⟨inner, q, hq, rfl, rfl, rfl⟩
      have hop := operator_symbol op (inner ++ closing ++ rest)
      rw [← List.append_assoc, ← List.append_assoc] at hop
      refine ⟨_, _, _, _, hop, Reader.bind_eq_some.2 ⟨_, _, _, _, htext, rfl, rfl⟩, by simp⟩

/-- Reads what stands behind the key of a condition. -/
def conditionEnd (key : List Char) : Reader Condition :=
  (do
    .exactly closing
    return ⟨.ofList key, none⟩) <|> (do
    let t ← comparison
    return ⟨.ofList key, some t⟩)

/-- The opening tag of a conditional, with its end as a reader of its own. -/
theorem condition_read (s : List Char) : condition.read s = (do
    .exactly (opening ++ "#if".toList)
    let _ ← Reader.run1 isBlank
    let key ← Reader.run1 isKeyChar
    let _ ← Reader.run isBlank
    conditionEnd key : Reader Condition).read s := rfl

/-- The end of the tag, with a comparison or without one. -/
theorem conditionEnd_eq_some_iff {key : List Char} {c : Condition} :
    (conditionEnd key).read s = some (c, front, rest) ↔ ∃ compared, c.key = .ofList key ∧
      Compares c.comparison compared ∧ front = compared ++ closing ∧ s = front ++ rest := by
  unfold conditionEnd
  rw [Reader.orElse_read, Option.or_eq_some_iff]
  constructor
  · rintro (h | ⟨-, h⟩)
    · obtain ⟨rfl, rfl, rfl⟩ := exactly_closing_eq_some.1 h
      exact ⟨[], rfl, .bare, rfl, rfl⟩
    · obtain ⟨t, _, _, _, ht, hpure, rfl⟩ := Reader.bind_eq_some.1 h
      obtain ⟨rfl, rfl, rfl⟩ := hpure
      obtain ⟨compared, hcompared, rfl, rfl⟩ := comparison_eq_some_iff.1 ht
      exact ⟨compared, rfl, hcompared, by simp, by simp⟩
  · obtain ⟨name, comparison'⟩ := c
    rintro ⟨compared, rfl, hcompared, rfl, rfl⟩
    cases comparison' with
    | none =>
      cases hcompared
      exact .inl (exactly_closing_eq_some.2 ⟨rfl, rfl, rfl⟩)
    | some t =>
      have ht : comparison.read (compared ++ closing ++ rest) = some (t, compared ++ closing, rest) :=
        comparison_eq_some_iff.2 ⟨compared, hcompared, rfl, rfl⟩
      refine .inr ⟨?_, Reader.bind_eq_some.2 ⟨_, _, _, _, ht, rfl, by simp⟩⟩
      -- an operator stands where the braces would
      cases hcompared with
      | compared op hq => cases op <;> rfl

/-- What follows a key in the tag stops a run of its characters. -/
theorem Compares.stops {t : Option Comparison} {compared : List Char} (h : Compares t compared)
    (hbrace : g '}' = false) (hsymbol : ['=', '!', '>', '<'].any g = false) (rest : List Char) :
    Stops g (compared ++ (closing ++ rest)) := by
  have hbegins : ∀ c ∈ ['=', '!', '>', '<'], g c = false :=
    fun c hc => Bool.eq_false_iff.2 (List.any_eq_false.1 hsymbol c hc)
  cases h with
  | bare => exact stops_cons.2 hbrace
  | compared op hq => cases op <;> exact stops_cons.2 (hbegins _ (by decide))

/-- **What is read as the opening tag of a conditional.** -/
theorem condition_eq_some_iff {c : Condition} : condition.read s = some (c, front, rest) ↔
    ConditionTag c front ∧ s = front ++ rest := by
  rw [condition_read, Reader.exactly_bind_eq_some]
  constructor
  · rintro ⟨_, _, rfl, h1, rfl⟩
    obtain ⟨blanks, _, _, _, hblanks, h2, rfl⟩ := Reader.bind_eq_some.1 h1
    obtain ⟨cs, _, _, _, hcs, h3, rfl⟩ := Reader.bind_eq_some.1 h2
    obtain ⟨blanks', _, _, _, hblanks', h4, rfl⟩ := Reader.bind_eq_some.1 h3
    obtain ⟨rfl, rfl, hne, hblank, -⟩ := Reader.run1_eq_some_iff.1 hblanks
    obtain ⟨rfl, rfl, hkey⟩ := Reader.run1_eq_some_iff.1 hcs
    obtain ⟨rfl, rfl, hblank', -⟩ := Reader.run_eq_some_iff.1 hblanks'
    obtain ⟨compared, hc, hcompared, rfl, rfl⟩ := conditionEnd_eq_some_iff.1 h4
    unfold ConditionTag
    rw [hc, String.toList_ofList]
    exact ⟨⟨⟨hkey.1, hkey.2.1⟩, blanks, blanks', compared, hne, hblank, hblank', hcompared,
      by simp [braced]⟩, by simp⟩
  · rintro ⟨⟨hkey, blanks, blanks', compared, hne, hblank, hblank', hcompared, rfl⟩, rfl⟩
    have hend := hcompared.stops (g := isBlank) (by decide) (by decide) rest
    have hkeyend : Stops isKeyChar (blanks' ++ (compared ++ (closing ++ rest))) := by
      cases blanks' with
      | nil => exact hcompared.stops (by decide) (by decide) rest
      | cons d blanks' =>
        refine stops_cons.2 (Bool.eq_false_iff.2 fun hd => ?_)
        have hblank := hblank' d List.mem_cons_self
        rw [isBlank_of_isKeyChar hd] at hblank
        cases hblank
    refine ⟨blanks ++ (c.key.toList ++ (blanks' ++ (compared ++ (closing ++ rest)))),
      blanks ++ (c.key.toList ++ (blanks' ++ (compared ++ closing))), by simp [braced], ?_,
      by simp [braced]⟩
    refine Reader.bind_eq_some.2 ⟨_, _, _, _,
      Reader.run1_eq_some_iff.2 ⟨rfl, rfl, hne, hblank, hkey.stops _⟩, ?_, rfl⟩
    refine Reader.bind_eq_some.2 ⟨_, _, _, _,
      Reader.run1_eq_some_iff.2 ⟨rfl, rfl, hkey.1, hkey.2, hkeyend⟩, ?_, rfl⟩
    refine Reader.bind_eq_some.2 ⟨_, _, _, _,
      Reader.run_eq_some_iff.2 ⟨rfl, rfl, hblank', hend⟩, ?_, rfl⟩
    exact conditionEnd_eq_some_iff.2 ⟨compared, String.ofList_toList.symm, hcompared, rfl, by simp⟩

end Tag

end Stencil
