import Mathlib.Data.List.Basic
import Mathlib.Data.List.Count
import Stencil.Widget.Selector

/-!
# Reading escaped selectors

The backslash that escapes is itself escaped, so an escaped id can be read from left to right: each
item of it is a character that is not special, or a backslash with one special character behind it. The
characters of the items are the id, and no other items make up the same text.

* `Item`: what an escaped id is made of.
* `escapeId_eq_flatMap`: the escaped id is the text of one item for each character.
* `flatMap_text_injective`: a text is made up of items in one way only.
* `isSpecial_iff`: which characters are special.
* `escape_decodable`: an escaped selector can be read back, and only what has to be is escaped.
-/

namespace Stencil.Selector

/-- **An item of an escaped id**: a character that is not special, or a special one behind a
backslash. -/
inductive Item where
  | plain (c : Char) (h : isSpecial c = false)
  | pair (c : Char) (h : isSpecial c = true)
  deriving DecidableEq

namespace Item

/-- How an item is written. -/
def text : Item → List Char
  | plain c _ => [c]
  | pair c _ => ['\\', c]

/-- The character without the backslash. -/
def char : Item → Char
  | plain c _ => c
  | pair c _ => c

/-- The item that stands for a character. -/
def ofChar (c : Char) : Item :=
  if h : isSpecial c = true then pair c h else plain c (eq_false_of_ne_true h)

@[simp] theorem char_ofChar (c : Char) : (ofChar c).char = c := by
  unfold ofChar
  split <;> rfl

theorem text_ofChar (c : Char) : (ofChar c).text = if isSpecial c then ['\\', c] else [c] := by
  unfold ofChar
  split
  · rfl
  · rfl

theorem ofChar_of_isSpecial {c : Char} (h : isSpecial c = true) : ofChar c = pair c h := dif_pos h

theorem ofChar_injective : Function.Injective ofChar := by
  intro c d h
  have hchar : (ofChar c).char = (ofChar d).char := by rw [h]
  rwa [char_ofChar, char_ofChar] at hchar

theorem text_ne_nil (i : Item) : i.text ≠ [] := by
  cases i <;> simp [text]

/-- Two texts that begin with an item begin with the same one: a character that is not special is no
backslash. -/
theorem append_inj {i j : Item} {s t : List Char} (h : i.text ++ s = j.text ++ t) :
    i = j ∧ s = t := by
  have hbackslash : isSpecial '\\' = true := by decide
  cases i with
  | plain c hc =>
    cases j with
    | plain d hd =>
      obtain ⟨rfl, hst⟩ : c = d ∧ s = t := by simpa [text] using h
      exact ⟨rfl, hst⟩
    | pair d hd =>
      obtain ⟨rfl, -⟩ : c = '\\' ∧ s = d :: t := by simpa [text] using h
      rw [hbackslash] at hc
      cases hc
  | pair c hc =>
    cases j with
    | plain d hd =>
      obtain ⟨rfl, -⟩ : '\\' = d ∧ c :: s = t := by simpa [text] using h
      rw [hbackslash] at hd
      cases hd
    | pair d hd =>
      obtain ⟨rfl, hst⟩ : c = d ∧ s = t := by simpa [text] using h
      exact ⟨rfl, hst⟩

end Item

theorem escapeId_eq_flatMap (id : List Char) :
    escapeId id = (id.map Item.ofChar).flatMap Item.text := by
  rw [escapeId, List.flatMap_map]
  congr 1
  funext c
  exact (Item.text_ofChar c).symm

/-- **A text is made up of items in one way only.** -/
theorem flatMap_text_injective :
    Function.Injective fun items : List Item => items.flatMap Item.text := by
  intro items others h
  simp only at h
  induction items generalizing others with
  | nil =>
    cases others with
    | nil => rfl
    | cons j others => simp [Item.text_ne_nil] at h
  | cons i items ih =>
    cases others with
    | nil => simp [Item.text_ne_nil] at h
    | cons j others =>
      rw [List.flatMap_cons, List.flatMap_cons] at h
      obtain ⟨rfl, hrest⟩ := Item.append_inj h
      rw [ih hrest]

theorem escapeId_injective : Function.Injective escapeId := by
  intro s t h
  rw [escapeId_eq_flatMap, escapeId_eq_flatMap] at h
  have hitems : s.map Item.ofChar = t.map Item.ofChar := flatMap_text_injective h
  exact List.map_injective_iff.2 Item.ofChar_injective hitems

theorem escapeChars_injective : Function.Injective escapeChars := by
  intro s t h
  by_cases hs : s.head? = some '#'
  · obtain ⟨id, rfl⟩ := List.head?_eq_some_iff.1 hs
    by_cases ht : t.head? = some '#'
    · obtain ⟨id', rfl⟩ := List.head?_eq_some_iff.1 ht
      rw [escapeChars_cons, escapeChars_cons] at h
      have hid : escapeId id = escapeId id' := (List.cons.inj h).2
      rw [escapeId_injective hid]
    · rw [escapeChars_cons, escapeChars_of_head?_ne ht] at h
      exact absurd (h ▸ rfl) ht
  · by_cases ht : t.head? = some '#'
    · obtain ⟨id', rfl⟩ := List.head?_eq_some_iff.1 ht
      rw [escapeChars_cons, escapeChars_of_head?_ne hs] at h
      exact absurd (h ▸ rfl) hs
    · rwa [escapeChars_of_head?_ne hs, escapeChars_of_head?_ne ht] at h

/-- An id with a special character becomes longer. -/
theorem length_lt_escapeId {id : List Char} (h : id.any isSpecial = true) :
    id.length < (escapeId id).length := by
  have hlength : (escapeId id).length = id.length + id.countP isSpecial := by
    clear h
    induction id with
    | nil => rfl
    | cons c s ih =>
      rw [escapeId, List.flatMap_cons, List.length_append, ← escapeId, ih, List.countP_cons,
        List.length_cons]
      split <;> simp <;> omega
  have hpos : 0 < id.countP isSpecial := by
    obtain ⟨c, hc, hspecial⟩ := List.any_eq_true.1 h
    exact List.countP_pos_iff.2 ⟨c, hc, hspecial⟩
  omega

/-- A selector stays as it is exactly where there is nothing to escape in it. -/
theorem escaped?_eq_none_iff {s : List Char} : escaped? s = none ↔ escapeChars s = s := by
  constructor
  · intro h
    rw [escapeChars, h, Option.getD_none]
  · intro h
    unfold escaped?
    split
    · next id =>
      rw [escapeChars_cons] at h
      have hid : escapeId id = id := (List.cons.inj h).2
      refine if_neg fun hany => ?_
      have hlt := length_lt_escapeId hany
      rw [hid] at hlt
      omega
    · rfl

/-- **The special characters** are the printable ones of ASCII, but for letters, digits, hyphens and
underscores. -/
theorem isSpecial_iff (c : Char) : isSpecial c = true ↔
    ' ' ≤ c ∧ c ≤ '~' ∧ c.isAlphanum = false ∧ c ≠ '-' ∧ c ≠ '_' := by
  constructor
  · intro h
    have hall : specialChars.all (fun c =>
        ' ' ≤ c ∧ c ≤ '~' ∧ c.isAlphanum = false ∧ c ≠ '-' ∧ c ≠ '_') = true := by
      decide +kernel
    exact of_decide_eq_true (List.all_eq_true.1 hall c (List.contains_iff_mem.1 h))
  · intro h
    have hall : ∀ n < 127, ' ' ≤ Char.ofNat n ∧ Char.ofNat n ≤ '~' ∧ (Char.ofNat n).isAlphanum = false ∧
        Char.ofNat n ≠ '-' ∧ Char.ofNat n ≠ '_' → isSpecial (Char.ofNat n) = true := by
      decide +kernel
    have hlt : c.toNat < 127 := Nat.lt_succ_of_le h.2.1
    have hc := hall c.toNat hlt
    rw [Char.ofNat_toNat] at hc
    exact hc h

/-- **An escaped selector can be read back.** Behind the number sign stand items, in one way only; their
characters are the id, and each special character of it stands behind a backslash as often as it is
there. A selector that is not by id stays as it is, two selectors are never escaped to the same one, and
nothing is rewritten exactly where nothing changes. Backslashes and number signs are special themselves. -/
theorem escape_decodable :
    (∀ id : String, ∃ items : List Item,
      (escape ("#" ++ id)).toList = '#' :: items.flatMap Item.text ∧
      items.map Item.char = id.toList ∧
      (∀ others : List Item, others.flatMap Item.text = items.flatMap Item.text → others = items) ∧
      ∀ c (h : isSpecial c = true), items.count (.pair c h) = id.toList.count c) ∧
    (∀ selector : String, selector.toList.head? ≠ some '#' → escape selector = selector) ∧
    Function.Injective escape ∧
    (∀ selector : String, escaped? selector.toList = none ↔ escape selector = selector) ∧
    isSpecial '\\' = true ∧ isSpecial '#' = true := by
  refine ⟨fun id => ⟨id.toList.map Item.ofChar, ?_, ?_, ?_, ?_⟩, ?_, ?_, ?_, ?_, ?_⟩
  · have hid : ("#" ++ id).toList = '#' :: id.toList := by simp
    rw [escape, String.toList_ofList, hid, escapeChars_cons, escapeId_eq_flatMap]
  · simp [Function.comp_def]
  · intro others h
    exact flatMap_text_injective h
  · intro c h
    rw [← Item.ofChar_of_isSpecial h]
    exact List.count_map_of_injective _ _ Item.ofChar_injective c
  · intro selector h
    rw [escape, escapeChars_of_head?_ne h, String.ofList_toList]
  · intro s t h
    have hchars : escapeChars s.toList = escapeChars t.toList := String.ofList_injective h
    exact String.toList_injective (escapeChars_injective hchars)
  · intro selector
    rw [escaped?_eq_none_iff, escape]
    constructor
    · intro h
      rw [h, String.ofList_toList]
    · intro h
      rw [← String.toList_ofList (l := escapeChars selector.toList), h]
  · exact (isSpecial_iff '\\').2 (by decide)
  · exact (isSpecial_iff '#').2 (by decide)

/-- A selector by class stays as it is, whatever is in it. In an id with a backslash, a number sign and a
colon, each of them is escaped. -/
theorem escape_class_selector :
    (".a:b#c".toList.head? ≠ some '#' ∧ escape ".a:b#c" = ".a:b#c") ∧
    escape ("#" ++ "a\\b#c:d") = "#a\\\\b\\#c\\:d" ∧
    ∃ items : List Item, (escape ("#" ++ "a\\b#c:d")).toList = '#' :: items.flatMap Item.text ∧
      items.map Item.char = ['a', '\\', 'b', '#', 'c', ':', 'd'] ∧
      ∀ c ∈ ['\\', '#', ':'], ∃ h : isSpecial c = true, items.count (.pair c h) = 1 := by
  have hclass : ".a:b#c".toList.head? ≠ some '#' := by decide
  obtain ⟨hids, hothers, -, -, hbackslash, hsign⟩ := escape_decodable
  obtain ⟨items, htext, hchars, -, hcount⟩ := hids "a\\b#c:d"
  have hcolon : isSpecial ':' = true := by decide
  refine ⟨⟨hclass, hothers ".a:b#c" hclass⟩, by decide +kernel, items, htext, hchars, ?_⟩
  simp only [List.forall_mem_cons, List.not_mem_nil, false_imp_iff, implies_true, and_true]
  exact ⟨⟨hbackslash, hcount _ _⟩, ⟨hsign, hcount _ _⟩, ⟨hcolon, hcount _ _⟩⟩

end Stencil.Selector
