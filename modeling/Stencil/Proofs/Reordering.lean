import Mathlib.Data.List.FinRange
import Stencil.Proofs.Dependence

/-!
# The order of the data

The entries of a context are read key by key: placeholders take the scalars that entries bind their key
to, and blocks have the value that the last of them binds it to. So nothing counts but the values that
each key is bound to, in the order of the entries that bind it. Entries without a common key may change
places, or be put together into one, and the entries of a context may be put into any order that keeps
those apart which have a key in common.

* `Context.valuesOf`: the values that a key is bound to. Offers and the merged view come from these.
* `render_eq_of_valuesOf`: nothing else is read.
* `Reorders`: entries in another order. `Reorders.map_places`: the entries with a key stay in order.
* `render_of_independent`: what does not change a rendering.
-/

namespace Stencil

open Text Tag Pieces

variable {template : String} {context other : Context} {key : String} {m m' : Mapping}
  {ms ms' xs ys : List Mapping} {missing : MissingBlocks}

/-! ### The values of a key -/

namespace Context

/-- The values that the entries bind a key to, from the first entry to the last. -/
def valuesOf (c : Context) (key : String) : List Value := c.entries.filterMap (·.get? key)

/-- The scalars of a key are those among its values, the last one first. -/
theorem scalarsOf_eq_filter (c : Context) (key : String) :
    c.scalarsOf key = (c.valuesOf key).reverse.filter Value.isScalar := by
  rw [scalarsOf, valuesOf, ← List.filterMap_reverse, List.filter_filterMap]
  rfl

/-- The merged view has the last value of a key. -/
theorem get?_merged_eq_getLast? (h : context.IsSorted) (key : String) :
    context.merged.get? key = (context.valuesOf key).getLast? := by
  rw [get?_merged h, ← List.head?_filterMap, List.filterMap_reverse, List.head?_reverse]
  rfl

end Context

/-- **Only the values of each key are read**, from whatever entries they come. -/
theorem render_eq_of_valuesOf (missing : MissingBlocks) (htemplate : Template.isClean template = true)
    (hcontext : context.isClean = true) (hother : other.isClean = true)
    (hsorted : context.IsSorted) (hsorted' : other.IsSorted)
    (h : ∀ key, other.valuesOf key = context.valuesOf key) :
    render missing template other = render missing template context := by
  have hlegible := Template.legible_of_isClean htemplate
  have hps := stock_pieces template.toList
  -- placeholders are filled with the scalars among the values, from the last one on
  have hfilled : ∀ ps, fillAll ps other = fillAll ps context := by
    intro ps
    rw [fillAll_eq_puts, fillAll_eq_puts]
    refine puts_congr fun path _ => ?_
    rw [offers_fills hsorted, offers_fills hsorted', Context.scalarsOf_eq_filter,
      Context.scalarsOf_eq_filter, h]
  -- loops and conditionals look at the last value
  have hmerged : ∀ q, AgreeAt other.merged context.merged q := by
    intro q tag _
    have hget : ∀ key, other.merged.get? key = context.merged.get? key := by
      intro key
      rw [Context.get?_merged_eq_getLast? hsorted, Context.get?_merged_eq_getLast? hsorted', h]
    cases tag with
    | placeholder path => exact hget path
    | eachOpen key => exact hget key
    | ifOpen c => exact hget c.key
    | _ => trivial
  have hexpanded : Pieces.expanded missing other (recogniser.pieces template.toList) =
      Pieces.expanded missing context (recogniser.pieces template.toList) := by
    unfold Pieces.expanded
    rw [hfilled, loops_congr_of_agree fun q _ => hmerged q,
      conditionals_congr_of_agree fun q _ => hmerged q]
  apply String.toList_inj.1
  rw [render_eq_join hlegible hps (toList_eq_join template) missing hcontext,
    render_eq_join hlegible hps (toList_eq_join template) missing hother, hexpanded]

/-! ### Entries without a common key -/

/-- No key is bound in both. -/
def Fields.Disjoint {α : Type} (m m' : Fields α) : Prop := ∀ key ∈ m.keys, key ∉ m'.keys

instance {α : Type} (m m' : Fields α) : Decidable (Fields.Disjoint m m') :=
  inferInstanceAs (Decidable (∀ key ∈ m.keys, key ∉ m'.keys))

theorem Fields.Disjoint.get?_eq_none (h : Fields.Disjoint m m') (key : String) :
    m.get? key = none ∨ m'.get? key = none := by
  rw [← Option.not_isSome_iff_eq_none, ← Option.not_isSome_iff_eq_none, ← not_and_or]
  rintro ⟨hm, hm'⟩
  exact h key (mem_keys_iff.2 hm) (mem_keys_iff.2 hm')

/-- Neighbours without a common key may change places. -/
theorem valuesOf_swap (h : Fields.Disjoint m m') (xs ys : List Mapping) (key : String) :
    (Context.mk (xs ++ m' :: m :: ys)).valuesOf key =
      (Context.mk (xs ++ m :: m' :: ys)).valuesOf key := by
  have hpair : ∀ ms : List Mapping, (m' :: m :: ms).filterMap (·.get? key) =
      (m :: m' :: ms).filterMap (·.get? key) := by
    intro ms
    rcases h.get?_eq_none key with hnone | hnone <;> simp only [List.filterMap_cons, hnone]
  unfold Context.valuesOf
  rw [List.filterMap_append, List.filterMap_append, hpair]

/-- Neighbours without a common key may be put together. -/
theorem valuesOf_merge (h : Fields.Disjoint m m') (hm' : Fields.Sorted m') (xs ys : List Mapping)
    (key : String) : (Context.mk (xs ++ m.merge m' :: ys)).valuesOf key =
      (Context.mk (xs ++ m :: m' :: ys)).valuesOf key := by
  have hpair : ∀ ms : List Mapping, (m.merge m' :: ms).filterMap (·.get? key) =
      (m :: m' :: ms).filterMap (·.get? key) := by
    intro ms
    rcases h.get?_eq_none key with hnone | hnone
    · simp only [List.filterMap_cons, Fields.get?_merge hm', hnone, Option.or_none]
    · simp only [List.filterMap_cons, Fields.get?_merge hm', hnone, Option.none_or]
  unfold Context.valuesOf
  rw [List.filterMap_append, List.filterMap_append, hpair]

/-! ### Entries in another order -/

/-- **A reordering**: each entry has a place among the others, and entries with a common key keep their
order. -/
structure Reorders (ms ms' : List Mapping) (σ : Fin ms.length ≃ Fin ms'.length) : Prop where
  moved : ∀ i, ms'.get (σ i) = ms.get i
  kept : ∀ i j, i < j → ¬ Fields.Disjoint (ms.get i) (ms.get j) → σ i < σ j

/-- The places of the entries that bind a key. -/
def places (ms : List Mapping) (key : String) : List (Fin ms.length) :=
  (List.finRange ms.length).filter fun i => ((ms.get i).get? key).isSome

/-- The places of a key are those of the mappings that have it. -/
theorem mem_places {i : Fin ms.length} :
    i ∈ places ms key ↔ ((ms.get i).get? key).isSome = true := by
  rw [places, List.mem_filter]
  exact and_iff_right (List.mem_finRange i)

theorem pairwise_places (ms : List Mapping) (key : String) : (places ms key).Pairwise (· < ·) :=
  (List.pairwise_lt_finRange _).filter _

/-- The values of a key are read at the places that bind it. -/
theorem filterMap_places (ms : List Mapping) (key : String) :
    (places ms key).filterMap (fun i => (ms.get i).get? key) = (Context.mk ms).valuesOf key := by
  have hread : ∀ i, (if ((ms.get i).get? key).isSome then (ms.get i).get? key else none) =
      (ms.get i).get? key := by
    intro i
    cases (ms.get i).get? key <;> rfl
  have hget : (List.finRange ms.length).filterMap (fun i => (ms.get i).get? key) =
      ((List.finRange ms.length).map ms.get).filterMap (·.get? key) := List.filterMap_map.symm
  rw [places, List.filterMap_filter]
  simp only [hread]
  rw [hget, List.map_get_finRange]
  rfl

namespace Reorders

variable {σ : Fin ms.length ≃ Fin ms'.length}

/-- The entries with a key stay in order. -/
theorem map_places (h : Reorders ms ms' σ) (key : String) :
    (places ms key).map σ = places ms' key := by
  have hpairwise : ((places ms key).map σ).Pairwise (· < ·) := by
    refine List.pairwise_map.2 (List.Pairwise.imp_of_mem ?_ (pairwise_places ms key))
    intro i j hi hj hlt
    refine h.kept i j hlt fun hdisjoint => ?_
    rw [mem_places] at hi hj
    rcases hdisjoint.get?_eq_none key with hnone | hnone
    · rw [hnone] at hi
      cases hi
    · rw [hnone] at hj
      cases hj
  have hmem : ∀ j, j ∈ (places ms key).map σ ↔ j ∈ places ms' key := by
    intro j
    rw [List.mem_map]
    constructor
    · rintro ⟨i, hi, rfl⟩
      rw [mem_places] at hi ⊢
      rwa [h.moved]
    · intro hj
      refine ⟨σ.symm j, ?_, σ.apply_symm_apply j⟩
      rw [mem_places] at hj ⊢
      rwa [← h.moved, σ.apply_symm_apply]
  -- both list the same places in increasing order
  have hperm : ((places ms key).map σ).Perm (places ms' key) :=
    (List.perm_ext_iff_of_nodup (hpairwise.imp Fin.ne_of_lt)
      ((pairwise_places ms' key).imp Fin.ne_of_lt)).2 hmem
  exact hperm.eq_of_pairwise (fun i j _ _ hlt hgt => absurd hlt (Fin.lt_asymm hgt)) hpairwise
    (pairwise_places ms' key)

/-- **The values of each key** stay in order. -/
theorem valuesOf (h : Reorders ms ms' σ) (key : String) :
    (Context.mk ms').valuesOf key = (Context.mk ms).valuesOf key := by
  have hmoved : ((fun j => (ms'.get j).get? key) ∘ σ) = fun i => (ms.get i).get? key := by
    funext i
    rw [Function.comp_apply, h.moved]
  rw [← filterMap_places ms', ← h.map_places, List.filterMap_map, hmoved, filterMap_places]

/-- Nothing but the mappings is reordered. -/
theorem mem (h : Reorders ms ms' σ) (hm : m ∈ ms') : m ∈ ms := by
  obtain ⟨j, rfl⟩ := List.get_of_mem hm
  rw [← σ.apply_symm_apply j, h.moved]
  exact List.get_mem _ _

end Reorders

/-! ### What does not change a rendering -/

theorem areCleanFields_merge (hm : Value.areCleanFields m = true)
    (hm' : Value.areCleanFields m' = true) : Value.areCleanFields (m.merge m') = true := by
  rw [Value.areCleanFields_iff] at hm hm' ⊢
  intro entry hentry
  exact (Fields.mem_merge hentry).elim (hm entry) (hm' entry)

/-- **The order of entries without a common key does not matter.** Where two entries that stand next to
each other have none, they may change places, or be put together into one entry. So all entries may be
put into any order in which those that have a common key stay as they were. -/
theorem render_of_independent (missing : MissingBlocks) (htemplate : Template.isClean template = true)
    (hcontext : context.isClean = true) (hsorted : context.IsSorted) :
    (∀ xs m m' ys, context.entries = xs ++ m :: m' :: ys → Fields.Disjoint m m' →
      render missing template ⟨xs ++ m' :: m :: ys⟩ = render missing template context ∧
      render missing template ⟨xs ++ m.merge m' :: ys⟩ = render missing template context) ∧
    (∀ ms σ, Reorders context.entries ms σ →
      render missing template ⟨ms⟩ = render missing template context) := by
  obtain ⟨entries⟩ := context
  have hclean : ∀ m ∈ entries, Value.areCleanFields m = true := List.all_eq_true.1 hcontext
  -- a context with the same values for each key, whose entries are sound as well
  have hsame : ∀ ms : List Mapping, (∀ m ∈ ms, Value.areCleanFields m = true ∧ Fields.Sorted m) →
      (∀ key, (Context.mk ms).valuesOf key = (Context.mk entries).valuesOf key) →
      render missing template ⟨ms⟩ = render missing template ⟨entries⟩ :=
    fun ms hms => render_eq_of_valuesOf missing htemplate hcontext
      (List.all_eq_true.2 fun m hm => (hms m hm).1) hsorted fun m hm => (hms m hm).2
  constructor
  · rintro xs m m' ys rfl hdisjoint
    have hall : ∀ e ∈ xs ++ m :: m' :: ys, Value.areCleanFields e = true ∧ Fields.Sorted e :=
      fun e he => ⟨hclean e he, hsorted e he⟩
    rw [List.forall_mem_append, List.forall_mem_cons, List.forall_mem_cons] at hall
    obtain ⟨hxs, hm, hm', hys⟩ := hall
    constructor
    · refine hsame _ ?_ (valuesOf_swap hdisjoint xs ys)
      rw [List.forall_mem_append, List.forall_mem_cons, List.forall_mem_cons]
      exact ⟨hxs, hm', hm, hys⟩
    · refine hsame _ ?_ (valuesOf_merge hdisjoint hm'.2 xs ys)
      rw [List.forall_mem_append, List.forall_mem_cons]
      exact ⟨hxs, ⟨areCleanFields_merge hm.1 hm'.1, Fields.sorted_merge hm.2 m'⟩, hys⟩
  · intro ms σ hreorders
    refine hsame ms (fun m hm => ?_) hreorders.valuesOf
    exact ⟨hclean m (hreorders.mem hm), hsorted m (hreorders.mem hm)⟩

/-- Two entries with a key, of which the second one fills first, and an entry without it. -/
theorem render_of_three_entries :
    render .remove "\x7b\x7ba\x7d\x7d-\x7b\x7ba\x7d\x7d/\x7b\x7bb\x7d\x7d"
        ⟨[[("a", .string "1")], [("b", .string "2")], [("a", .string "3")]]⟩ = "3-1/2" ∧
    (render .remove "\x7b\x7ba\x7d\x7d-\x7b\x7ba\x7d\x7d/\x7b\x7bb\x7d\x7d"
        ⟨[[("b", .string "2")], [("a", .string "1")], [("a", .string "3")]]⟩ =
      render .remove "\x7b\x7ba\x7d\x7d-\x7b\x7ba\x7d\x7d/\x7b\x7bb\x7d\x7d"
        ⟨[[("a", .string "1")], [("b", .string "2")], [("a", .string "3")]]⟩ ∧
    render .remove "\x7b\x7ba\x7d\x7d-\x7b\x7ba\x7d\x7d/\x7b\x7bb\x7d\x7d"
        ⟨[[("a", .string "1"), ("b", .string "2")], [("a", .string "3")]]⟩ =
      render .remove "\x7b\x7ba\x7d\x7d-\x7b\x7ba\x7d\x7d/\x7b\x7bb\x7d\x7d"
        ⟨[[("a", .string "1")], [("b", .string "2")], [("a", .string "3")]]⟩) ∧
    render .remove "\x7b\x7ba\x7d\x7d-\x7b\x7ba\x7d\x7d/\x7b\x7bb\x7d\x7d"
        ⟨[[("a", .string "1")], [("a", .string "3")], [("b", .string "2")]]⟩ =
      render .remove "\x7b\x7ba\x7d\x7d-\x7b\x7ba\x7d\x7d/\x7b\x7bb\x7d\x7d"
        ⟨[[("a", .string "1")], [("b", .string "2")], [("a", .string "3")]]⟩ := by
  have htemplate : Template.isClean
      "\x7b\x7ba\x7d\x7d-\x7b\x7ba\x7d\x7d/\x7b\x7bb\x7d\x7d" = true := by decide +kernel
  have hcontext : (Context.mk [[("a", .string "1")], [("b", .string "2")],
      [("a", .string "3")]]).isClean = true := by decide +kernel
  have hsorted : (Context.mk [[("a", .string "1")], [("b", .string "2")],
      [("a", .string "3")]]).IsSorted := by decide +kernel
  have hdisjoint : Fields.Disjoint [("a", Value.string "1")] [("b", .string "2")] := by decide
  obtain ⟨hadjacent, hreordered⟩ := render_of_independent .remove htemplate hcontext hsorted
  refine ⟨by decide +kernel, hadjacent [] _ _ _ rfl hdisjoint,
    hreordered _ (Equiv.swap (1 : Fin 3) 2) ⟨?_, ?_⟩⟩
  · intro i
    match i with
    | 0 => rfl
    | 1 => rfl
    | 2 => rfl
  · decide

end Stencil
