import Stencil.Data.Condition
import Stencil.Proofs.ReadBack
import Stencil.Proofs.Spelling

/-!
# Comparisons that agree

Equality is asked of displayed texts, order of numbers where both sides are some. The two agree because a
displayed value is read back as what it was: its own text is neither above nor below it.

* `Value.exists_ofText?_display`: the text of a value that has a number is read as that number, or as the
  other zero.
* `Comparison.eq_of_order?_display`: a value is in no strict order with its own text.
* `Condition.comparisons_agree`: the four comparisons of a bound key agree, and an unbound key
  meets no condition.
-/

namespace Stencil

/-! ### Numbers and their texts -/

theorem Text.trim_eq_self {s : List Char} (h : ∀ c ∈ s, isBlank c = false) : trim s = s := by
  have hdrop : ∀ t : List Char, (∀ c ∈ t, isBlank c = false) → t.dropWhile isBlank = t := by
    intro t ht
    rw [List.dropWhile_eq_self_iff]
    intro hl
    rw [ht _ (List.getElem_mem hl)]
    exact Bool.false_ne_true
  have hreverse : ∀ c ∈ s.reverse, isBlank c = false := fun c hc => h c (List.mem_reverse.1 hc)
  rw [trim, skipBlanks, hdrop s h, trimEnd, hdrop s.reverse hreverse, List.reverse_reverse]

namespace Number

theorem isBlank_of_mem_digitsText {m : Nat} {e : Int} {c : Char} (h : c ∈ digitsText m e) :
    Text.isBlank c = false := by
  rcases mem_digitsText h with hdigit | rfl
  · have hkey : Tag.isKeyChar c = true := by
      unfold Tag.isKeyChar Char.isAlphanum
      rw [hdigit, Bool.or_true, Bool.true_or, Bool.true_or]
    exact Tag.isBlank_of_isKeyChar hkey
  · decide

theorem trim_text (x : Number) : Text.trim x.text.toList = x.text.toList := by
  cases x with
  | nan => decide
  | infinite negative => cases negative <;> decide
  | finite negative m e hcanonical =>
    refine Text.trim_eq_self fun c hc => ?_
    rw [text_finite, String.toList_ofList] at hc
    split at hc
    · rcases List.mem_cons.1 hc with rfl | hc
      · decide
      · exact isBlank_of_mem_digitsText hc
    · exact isBlank_of_mem_digitsText hc

/-- A number is in no strict order with itself. -/
theorem eq_of_compare?_self {x : Number} {o : Ordering} (h : x.compare? x = some o) : o = .eq := by
  cases x with
  | nan => cases h
  | infinite s =>
    rw [← Option.some.inj h]
    exact Std.ReflCmp.compare_self
  | finite s m e _ =>
    rw [← Option.some.inj h]
    exact Std.ReflCmp.compare_self

/-- The two zeros are equal. -/
theorem eq_of_compare?_zero {x : Number} (hzero : x.isZero = true) {o : Ordering}
    (h : x.compare? (zero false) = some o) : o = .eq := by
  cases x with
  | finite s m e _ =>
    obtain rfl : m = 0 := by simpa [isZero] using hzero
    have hunits : ∀ (negative : Bool) (f unit : Int), units negative 0 f unit = 0 := by
      intro negative f unit
      simp [units]
    simp only [zero, compare?, hunits] at h
    rw [← Option.some.inj h]
    exact Std.ReflCmp.compare_self
  | nan => cases hzero
  | infinite s => cases hzero

end Number

/-- **A displayed value is read back** as the number it has, or as zero where that is one of the two zeros. -/
theorem Value.exists_ofText?_display {v : Value} {x : Number} (h : v.number? = some x) :
    ∃ y, Number.ofText? (Text.trim v.display.toList) = some y ∧
      (y = x ∨ x.isZero = true ∧ y = .zero false) := by
  cases v with
  | number x' =>
    obtain rfl : x' = x := Option.some.inj h
    rw [display]
    split
    · next hzero => exact ⟨.zero false, by decide, .inr ⟨hzero, rfl⟩⟩
    · exact ⟨x', by rw [x'.trim_text, x'.ofText?_text], .inl rfl⟩
  | string s => exact ⟨x, h, .inl rfl⟩
  | null => cases h
  | bool b => cases h
  | sequence items => cases h
  | mapping fields => cases h

/-! ### Conditions -/

/-- **A value is neither above nor below its own text.** -/
theorem Comparison.eq_of_order?_display {v : Value} {o : Ordering} (h : order? v v.display = some o) :
    o = .eq := by
  unfold order? at h
  cases hv : v.number? with
  | none =>
    rw [hv] at h
    rw [← Option.some.inj h]
    exact Std.ReflCmp.compare_self
  | some x =>
    obtain ⟨y, hread, hy⟩ := Value.exists_ofText?_display hv
    have hxy : x.compare? y = some o := by rwa [hv, hread] at h
    rcases hy with rfl | ⟨hzero, rfl⟩
    · exact Number.eq_of_compare?_self hxy
    · exact Number.eq_of_compare?_zero hzero hxy

namespace Condition

/-- The condition that compares a key with an operand. -/
def comparing (key : String) (op : Operator) (operand : String) : Condition := ⟨key, some ⟨op, operand⟩⟩

theorem holdsIn_comparing {data : Option Mapping} {key : String} {v : Value}
    (h : data.bind (·.get? key) = some v) (op : Operator) (operand : String) :
    (comparing key op operand).holdsIn data = Comparison.holds ⟨op, operand⟩ v := by
  unfold holdsIn comparing
  rw [h]
  rfl

/-- **The comparisons agree with each other.** On a bound key just one of `==` and `!=` holds, and neither
`>` nor `<` holds beside `==` or beside the other. Without a value every condition is false. -/
theorem comparisons_agree (data : Option Mapping) (key operand : String) :
    (∀ v, data.bind (·.get? key) = some v →
      (comparing key .notEqual operand).holdsIn data = !(comparing key .equal operand).holdsIn data ∧
      ¬ ((comparing key .greater operand).holdsIn data = true ∧
        (comparing key .less operand).holdsIn data = true) ∧
      ((comparing key .equal operand).holdsIn data = true →
        (comparing key .greater operand).holdsIn data = false ∧
          (comparing key .less operand).holdsIn data = false)) ∧
    (data.bind (·.get? key) = none → ∀ c : Condition, c.key = key → c.holdsIn data = false) := by
  constructor
  · intro v hv
    simp only [holdsIn_comparing hv]
    refine ⟨rfl, ?_, ?_⟩
    · rintro ⟨hgreater, hless⟩
      have hgt : Comparison.order? v operand = some .gt := beq_iff_eq.1 hgreater
      have hlt : Comparison.order? v operand = some .lt := beq_iff_eq.1 hless
      rw [hgt] at hlt
      cases hlt
    · intro hequal
      have hdisplay : v.display = operand := beq_iff_eq.1 hequal
      subst hdisplay
      constructor
      · refine beq_false_of_ne fun hgt => ?_
        cases Comparison.eq_of_order?_display hgt
      · refine beq_false_of_ne fun hlt => ?_
        cases Comparison.eq_of_order?_display hlt
  · intro hv c hc
    subst hc
    rw [holdsIn, hv]

/-- Negative zero equals the text of zero, so that it is neither above nor below it. Numbers are compared
as numbers, also when they are texts, and other texts letter by letter. -/
theorem negative_zero_meets_equal :
    let data : Option Mapping := some [("n", .number (.zero true)), ("s", .string "9"), ("t", .string "b")]
    (comparing "n" .equal "0").holdsIn data = true ∧ (comparing "n" .notEqual "0").holdsIn data = false ∧
      (comparing "n" .greater "0").holdsIn data = false ∧ (comparing "n" .less "0").holdsIn data = false ∧
      (comparing "m" .notEqual "0").holdsIn data = false ∧
      (comparing "s" .less "10").holdsIn data = true ∧ (comparing "s" .equal "10").holdsIn data = false ∧
      (comparing "s" .greater "10").holdsIn data = false ∧
      (comparing "t" .greater "aa").holdsIn data = true ∧ (comparing "t" .equal "aa").holdsIn data = false ∧
      (comparing "t" .less "aa").holdsIn data = false := by
  intro data
  have hequal : (comparing "n" .equal "0").holdsIn data = true := by decide
  have hbound : data.bind (·.get? "n") = some (.number (.zero true)) := rfl
  have hunbound : data.bind (·.get? "m") = none := rfl
  obtain ⟨hnot, -, hstrict⟩ := (comparisons_agree data "n" "0").1 _ hbound
  have habsent := (comparisons_agree data "m" "0").2 hunbound (comparing "m" .notEqual "0") rfl
  rw [hequal, Bool.not_true] at hnot
  have hsecond : data.bind (·.get? "s") = some (.string "9") := rfl
  have hthird : data.bind (·.get? "t") = some (.string "b") := rfl
  -- what holds of a pair excludes the other two
  have hless : (comparing "s" .less "10").holdsIn data = true := by decide +kernel
  have hgreater : (comparing "t" .greater "aa").holdsIn data = true := by decide +kernel
  obtain ⟨-, hone, hexcluded⟩ := (comparisons_agree data "s" "10").1 _ hsecond
  obtain ⟨-, hone', hexcluded'⟩ := (comparisons_agree data "t" "aa").1 _ hthird
  refine ⟨hequal, hnot, (hstrict hequal).1, (hstrict hequal).2, habsent, hless, ?_, ?_, hgreater, ?_, ?_⟩
  · refine Bool.eq_false_iff.2 fun h => ?_
    rw [(hexcluded h).2] at hless
    cases hless
  · exact Bool.eq_false_iff.2 fun h => hone ⟨h, hless⟩
  · refine Bool.eq_false_iff.2 fun h => ?_
    rw [(hexcluded' h).1] at hgreater
    cases hgreater
  · exact Bool.eq_false_iff.2 fun h => hone' ⟨hgreater, h⟩

end Condition

end Stencil
