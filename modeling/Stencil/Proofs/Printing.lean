import Stencil.Proofs.Partition
import Stencil.Proofs.Tokens

/-!
# Printed conditions are read back

Messages write a condition with its operand between quotes, and a tag written that way is read as the
same condition. This needs a look at all the ways to take the tag apart: an operand may begin with an
equals sign or with blanks, and it may have opening braces or line breaks in it, but there is one way
that counts. The converse holds too, as each condition that comes from a tag can be written in one.

* `Condition.IsWritable`: the conditions that tags can say.
* `ConditionTag.printed`, `ConditionTag.unquoted`: two ways to write a condition, with quotes around the
  operand and without.
* `silent_of_not_infix`: a search for a text that does not overlap itself goes past all other text.
* `conditions_read_back`: printing and reading are inverse.
-/

namespace Stencil

open Text Tag

variable {c : Condition} {t : Comparison} {key : String} {s u tag needle body : List Char}

/-- **A condition that a tag can say.** Its key is a key, and its operand, if it has one, could stand
between quotes in a tag. -/
structure Condition.IsWritable (c : Condition) : Prop where
  key : IsKey c.key.toList
  operand : ∀ t, c.comparison = some t → ∀ d ∈ t.operand.toList, d ≠ '"' ∧ d ≠ '}'

namespace Tag

theorem isOperandChar_iff {d : Char} : isOperandChar d = true ↔ d ≠ '"' ∧ d ≠ '}' := by
  simp [isOperandChar]

/-! ### Ways to write a condition -/

/-- A comparison written without quotes, with blanks in the four places that may have some. -/
def unquotedTag (key : String) (t : Comparison) (blanks before between behind : List Char) :
    List Char :=
  braced ("#if".toList ++ (blanks ++ (key.toList ++ (before ++
    (t.operator.symbol.toList ++ (between ++ (t.operand.toList ++ behind)))))))

theorem isBlank_of_mem_space : ∀ d ∈ [' '], isBlank d = true := List.forall_mem_singleton.2 rfl

namespace Quotation

/-- An operand between quotes, with one blank in front. -/
def quoted (h : ∀ d ∈ s, isOperandChar d = true) : Quotation (' ' :: '"' :: (s ++ ['"'])) where
  before := [' ']
  quote := ['"']
  operand := s
  unquote := ['"']
  behind := []
  text_eq := by simp
  blank_before := isBlank_of_mem_space
  quote_eq := .inr rfl
  operand_char := h
  unquote_eq := .inr rfl
  blank_behind := nofun

theorem preferred_quoted (h : ∀ d ∈ s, isOperandChar d = true) : (quoted h).Preferred :=
  Normal.preferred ⟨stops_cons.2 (by decide), nofun, nofun⟩

/-- An operand without quotes can be taken for itself if no blanks are at its ends. -/
theorem exists_preferred_of_trim (h : ∀ d ∈ s, isOperandChar d = true) (htrim : trim s = s)
    {before behind : List Char} (hbefore : ∀ d ∈ before, isBlank d = true)
    (hbehind : ∀ d ∈ behind, isBlank d = true) :
    ∃ q : Quotation (before ++ (s ++ behind)), q.Preferred ∧ q.operand = s := by
  cases s with
  | nil =>
    -- all blanks stand in front of an empty operand
    have hblank : ∀ d ∈ before ++ behind, isBlank d = true := by
      intro d hd
      exact (List.mem_append.1 hd).elim (hbefore d) (hbehind d)
    let q : Quotation (before ++ ([] ++ behind)) :=
      ⟨before ++ behind, [], [], [], [], by simp, hblank, .inl rfl, nofun, .inl rfl, nofun⟩
    exact ⟨q, Normal.preferred ⟨stops_nil _, fun _ => stops_nil _, fun _ => rfl⟩, rfl⟩
  | cons d s =>
    have hlength : (skipBlanks (d :: s)).length ≥ (d :: s).length := by
      have := length_trimEnd_le (skipBlanks (d :: s))
      rwa [← trim, htrim] at this
    have hskip : skipBlanks (d :: s) = d :: s :=
      (List.dropWhile_suffix _).eq_of_length_le hlength
    have hblank : isBlank d = false := by
      have hstops := stops_dropWhile isBlank (d :: s)
      rw [← skipBlanks, hskip] at hstops
      exact stops_cons.1 hstops
    have hend : trimEnd (d :: s) = d :: s := by rw [trim, hskip] at htrim; exact htrim
    have hquote : (d == '"') = false := by
      simpa using (isOperandChar_iff.1 (h d List.mem_cons_self)).1
    let q : Quotation (before ++ (d :: s ++ behind)) :=
      ⟨before, [], d :: s, [], behind, by simp, hbefore, .inl rfl, h, .inl rfl, hbehind⟩
    refine ⟨q, Normal.preferred ⟨stops_cons.2 hblank, fun _ => stops_cons.2 hquote, fun _ => ?_⟩, rfl⟩
    show trimEnd (d :: s ++ behind) = d :: s
    rw [trimEnd_append_of_blank hbehind, hend]

end Quotation

namespace ConditionTag

/-- **A condition as messages print it** is the opening tag of the condition. -/
theorem printed (h : c.IsWritable) : ConditionTag c (Tag.ifOpen c).text.toList := by
  obtain ⟨key, comparison⟩ := c
  refine ⟨h.key, [' '], ?_⟩
  cases comparison with
  | none =>
    refine ⟨[], [], List.cons_ne_nil _ _, isBlank_of_mem_space, nofun, .bare, ?_⟩
    simp [Tag.text, Condition.text]
  | some t =>
    obtain ⟨op, operand⟩ := t
    have hchar : ∀ d ∈ operand.toList, isOperandChar d = true :=
      fun d hd => isOperandChar_iff.2 (h.operand _ rfl d hd)
    have hcompares := Compares.compared op (Quotation.preferred_quoted hchar)
    rw [show (Quotation.quoted hchar).operand = operand.toList from rfl, String.ofList_toList]
      at hcompares
    refine ⟨[' '], _, List.cons_ne_nil _ _, isBlank_of_mem_space, isBlank_of_mem_space, hcompares, ?_⟩
    simp [Tag.text, Condition.text]

/-- **A condition with its operand as it is**, and with blanks wherever they may stand. -/
theorem unquoted (h : Condition.IsWritable ⟨key, some t⟩)
    (htrim : trim t.operand.toList = t.operand.toList) {blanks before between behind : List Char}
    (hne : blanks ≠ []) (hblanks : ∀ d ∈ blanks, isBlank d = true)
    (hbefore : ∀ d ∈ before, isBlank d = true) (hbetween : ∀ d ∈ between, isBlank d = true)
    (hbehind : ∀ d ∈ behind, isBlank d = true) :
    ConditionTag ⟨key, some t⟩ (unquotedTag key t blanks before between behind) := by
  have hchar : ∀ d ∈ t.operand.toList, isOperandChar d = true :=
    fun d hd => isOperandChar_iff.2 (h.operand _ rfl d hd)
  obtain ⟨q, hq, hoperand⟩ := Quotation.exists_preferred_of_trim hchar htrim hbetween hbehind
  have hcompares := Compares.compared t.operator hq
  rw [hoperand, String.ofList_toList] at hcompares
  exact ⟨h.key, blanks, before, _, hne, hblanks, hbefore, hcompares, rfl⟩

/-- What a tag says can be said in a tag. -/
theorem isWritable (h : ConditionTag c tag) : c.IsWritable := by
  obtain ⟨hkey, -, -, compared, -, -, -, hcompares, -⟩ := h
  refine ⟨hkey, fun t ht d hd => ?_⟩
  rw [ht] at hcompares
  cases hcompares with
  | compared op hq =>
    rw [String.toList_ofList] at hd
    exact isOperandChar_iff.1 (Quotation.operand_char _ d hd)

theorem read (h : ConditionTag c tag) (rest : List Char) :
    recogniser.read (tag ++ rest) = some (.ifOpen c, tag, rest) :=
  condition_read_iff.1 (condition_eq_some_iff.2 ⟨h, rfl⟩)

/-- An opening tag alone is one token. -/
theorem ofSource (h : ConditionTag c tag) :
    Token.ofSource (.ofList tag) = [⟨.tag (.ifOpen c), 0, size tag⟩] := ofSource_tag (h.read [])

end ConditionTag

end Tag

theorem isWritable_of_mem_ofSource {source : String} {start stop : Nat}
    (h : ⟨.tag (.ifOpen c), start, stop⟩ ∈ Token.ofSource source) : c.IsWritable := by
  obtain ⟨lexeme, a, b, hpieces, -, -⟩ := mem_ofSource_tag.1 h
  obtain ⟨rest, -, hread⟩ := (hpieces ▸ recogniser.cut_pieces source.toList).read
  exact (condition_eq_some_iff.1 (condition_read_iff.2 hread)).1.isWritable

/-! ### Searches for closing tags -/

/-- A text that does not overlap itself: none of its ends is one of its beginnings. -/
def Unbordered (needle : List Char) : Prop :=
  ∀ n, 0 < n → n < needle.length → ¬ needle.drop n <+: needle

/-- **A text that does not overlap itself** is not begun in text that does not have it. -/
theorem silent_of_not_infix (hneedle : Unbordered needle) (h : ¬ needle <:+: s) (rest : List Char) :
    Silent (after? needle) s (needle ++ rest) := by
  intro u hu hs
  cases hafter : after? needle (u ++ (needle ++ rest)) with
  | none => rfl
  | some behind =>
    have htext := after?_eq_some_iff.1 hafter
    exfalso
    rcases List.append_eq_append_iff.1 htext with ⟨v, hv, hrest⟩ | ⟨v, hv, -⟩
    · by_cases hlength : u.length < needle.length
      · -- the end of the text behind `u` is one of its beginnings
        refine hneedle u.length (List.length_pos_iff.2 hu) hlength ?_
        rw [hv, List.drop_left]
        have hprefix : v <+: u ++ v ++ rest := ⟨behind, by rw [← hv, hrest]⟩
        exact List.prefix_of_prefix_length_le hprefix (List.prefix_append _ _) (by simp)
      · have hnil : v = [] := by
          have := congrArg List.length hv
          rw [List.length_append] at this
          exact List.length_eq_zero_iff.1 (by omega)
        rw [hnil, List.append_nil] at hv
        exact h (hv ▸ hs.isInfix)
    · exact h (List.IsInfix.trans ⟨[], v, by rw [hv, List.nil_append]⟩ hs.isInfix)

theorem unbordered_ifCloseText : Unbordered ifCloseText := by
  intro n hpos hlt
  have hall : ∀ m ∈ List.range ifCloseText.length, 0 < m → ¬ ifCloseText.drop m <+: ifCloseText := by
    decide
  exact hall n (List.mem_range.2 hlt) hpos

/-- A conditional reaches to the closing tag behind its body. -/
theorem findAll_conditional (htag : ConditionTag c tag) (hbody : ¬ ifCloseText <:+: body) :
    ConditionalBlock.recogniser.findAll (tag ++ (body ++ ifCloseText)) =
      [(⟨c, body⟩, 0, size (tag ++ (body ++ ifCloseText)))] := by
  have hsplit : split? ifCloseText [] (body ++ ifCloseText) = some (body, []) := by
    have hsilent := silent_of_not_infix unbordered_ifCloseText hbody []
    rw [List.append_nil] at hsilent
    have hafter : after? ifCloseText ifCloseText = some [] := after?_eq_some_iff.2 (by simp)
    have hne : ifCloseText ≠ [] := braced_ne_nil _
    rw [split?_append_of_silent hsilent, split?_of_after? hne hafter]
    simp
  have hread : ConditionalBlock.recogniser.read (tag ++ (body ++ ifCloseText)) =
      some (⟨c, body⟩, tag ++ (body ++ ifCloseText), []) := by
    have hopens := condition_eq_some_iff.2 ⟨htag, (rfl : tag ++ (body ++ ifCloseText) = _)⟩
    refine (block_read Tag.condition ifCloseText ConditionalBlock.mk _).trans ?_
    rw [hopens, Option.bind_some]
    dsimp only
    rw [hsplit]
    rfl
  rw [Recogniser.findAll_eq_findFrom, Recogniser.findFrom_of_read 0 hread, Recogniser.findFrom_nil,
    Nat.zero_add]

/-! ### Both directions -/

/-- **Printing and reading conditions are inverse.** The conditions that a tag can say are those whose
printed tag is one token that says them, and the printed tag with a body and a closing tag behind it is
one conditional on them. All conditions among the tokens of a text are of this kind. And where no blanks
are at the ends of the operand, the tag may be written without quotes, and with blanks around the
operator and in front of the closing braces. -/
theorem conditions_read_back :
    (∀ c : Condition, c.IsWritable ↔ Token.ofSource (Tag.ifOpen c).text =
      [⟨.tag (.ifOpen c), 0, size (Tag.ifOpen c).text.toList⟩]) ∧
    (∀ (c : Condition) (body : List Char), c.IsWritable → ¬ ifCloseText <:+: body →
      ConditionalBlock.recogniser.findAll ((Tag.ifOpen c).text.toList ++ (body ++ ifCloseText)) =
        [(⟨c, body⟩, 0, size ((Tag.ifOpen c).text.toList ++ (body ++ ifCloseText)))]) ∧
    (∀ (source : String) (c : Condition) (start stop : Nat),
      ⟨.tag (.ifOpen c), start, stop⟩ ∈ Token.ofSource source → c.IsWritable) ∧
    (∀ (key : String) (t : Comparison) (blanks before between behind : List Char),
      Condition.IsWritable ⟨key, some t⟩ → trim t.operand.toList = t.operand.toList → blanks ≠ [] →
      (∀ d ∈ blanks ++ (before ++ (between ++ behind)), isBlank d = true) →
      Token.ofSource (.ofList (unquotedTag key t blanks before between behind)) =
        [⟨.tag (.ifOpen ⟨key, some t⟩), 0, size (unquotedTag key t blanks before between behind)⟩]) := by
  refine ⟨fun c => ⟨fun hc => ?_, fun htokens => ?_⟩, fun c body hc hbody => ?_,
    fun source c start stop => isWritable_of_mem_ofSource,
    fun key t blanks before between behind hc htrim hne hblank => ?_⟩
  · have htoken := (ConditionTag.printed hc).ofSource
    rwa [String.ofList_toList] at htoken
  · exact isWritable_of_mem_ofSource (htokens ▸ List.mem_cons_self)
  · exact findAll_conditional (.printed hc) hbody
  · simp only [List.forall_mem_append] at hblank
    obtain ⟨hblanks, hbefore, hbetween, hbehind⟩ := hblank
    exact (ConditionTag.unquoted hc htrim hne hblanks hbefore hbetween hbehind).ofSource

/-- An operand that begins with an equals sign, has opening braces and a line break in it, and ends with a
blank; and one that is written without quotes, with blanks and a tab around the operator. -/
theorem conditions_read_back_past_braces :
    Condition.IsWritable ⟨"a", some ⟨.equal, "=\x7b\x7b\n "⟩⟩ ∧
    Token.ofSource "\x7b\x7b#if a == \"=\x7b\x7b\n \"\x7d\x7d" =
      [⟨.tag (.ifOpen ⟨"a", some ⟨.equal, "=\x7b\x7b\n "⟩⟩), 0, 20⟩] ∧
    ConditionalBlock.recogniser.findAll
        "\x7b\x7b#if a == \"=\x7b\x7b\n \"\x7d\x7dx\x7b\x7b/if\x7d\x7d".toList =
      [(⟨⟨"a", some ⟨.equal, "=\x7b\x7b\n "⟩⟩, ['x']⟩, 0, 28)] ∧
    Token.ofSource "\x7b\x7b#if a \t>  b c \x7d\x7d" =
      [⟨.tag (.ifOpen ⟨"a", some ⟨.greater, "b c"⟩⟩), 0, 18⟩] := by
  have hc : Condition.IsWritable ⟨"a", some ⟨.equal, "=\x7b\x7b\n "⟩⟩ := by
    refine ⟨⟨by decide, List.all_eq_true.1 (by decide)⟩, ?_⟩
    rintro t ⟨⟩ d hd
    exact isOperandChar_iff.1 (List.all_eq_true.1 (by decide) d hd)
  have htoken := (conditions_read_back.1 _).1 hc
  have htext : (Tag.ifOpen ⟨"a", some ⟨.equal, "=\x7b\x7b\n "⟩⟩).text =
      "\x7b\x7b#if a == \"=\x7b\x7b\n \"\x7d\x7d" := by decide +kernel
  have hblock := conditions_read_back.2.1 _ ['x'] hc (by decide)
  have hbare : Condition.IsWritable ⟨"a", some ⟨.greater, "b c"⟩⟩ := by
    refine ⟨⟨by decide, List.all_eq_true.1 (by decide)⟩, ?_⟩
    rintro t ⟨⟩ d hd
    exact isOperandChar_iff.1 (List.all_eq_true.1 (by decide) d hd)
  have hunquoted := conditions_read_back.2.2.2 "a" ⟨.greater, "b c"⟩ [' '] [' ', '\t'] [' ', ' '] [' ']
    hbare (by decide) (by decide) (List.all_eq_true.1 (by decide))
  have hspelled : String.ofList (unquotedTag "a" ⟨.greater, "b c"⟩ [' '] [' ', '\t'] [' ', ' '] [' ']) =
      "\x7b\x7b#if a \t>  b c \x7d\x7d" := by decide +kernel
  rw [htext] at htoken hblock
  have hsize : size (unquotedTag "a" ⟨.greater, "b c"⟩ [' '] [' ', '\t'] [' ', ' '] [' ']) = 18 := by
    decide
  rw [hspelled, hsize] at hunquoted
  exact ⟨hc, htoken, hblock, hunquoted⟩

end Stencil
