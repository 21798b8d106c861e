import Stencil.Proofs.Fills

/-!
# What a placeholder takes

Each fill is an offer to the placeholders of its path, and a path has its offers in the order in which
they are made: its first placeholder takes the first offer, and what is left goes to the placeholders
behind it. So what becomes of pieces depends on no offers but those to the paths that they read. The
offers of a context to a key are the scalars that its entries bind the key to, from the last entry to
the first.

* `puts_cons_placeholder`: a placeholder takes the first offer to its path.
* `puts_append_drop`: the offers that are left for the pieces behind others.
* `puts_congr`: only offers to paths that are read matter.
* `offers_fills`: the offers of a context.
* `get?_merged`: the merged view has a key from the last entry that binds it.
-/

namespace Stencil

open Text Tag Pieces

variable {ps a b : Pieces} {p : Piece Tag} {path path' key : String} {value : Value} {m : Mapping}
  {fills fills' : List (String × String)} {context : Context}

/-- The texts that are offered to the placeholders of a path, in order. -/
def offers (fills : List (String × String)) (path : String) : List String :=
  fills.filterMap fun fill => if fill.1 = path then some fill.2 else none

theorem offers_cons (fill : String × String) (fills : List (String × String)) (path : String) :
    offers (fill :: fills) path =
      if fill.1 = path then fill.2 :: offers fills path else offers fills path := by
  unfold offers
  by_cases hpath : fill.1 = path
  · rw [List.filterMap_cons_some (by rw [if_pos hpath]), if_pos hpath]
  · rw [List.filterMap_cons_none (by rw [if_neg hpath]), if_neg hpath]

/-- Offers come in the order of the fills. -/
theorem offers_append (fills fills' : List (String × String)) (path : String) :
    offers (fills ++ fills') path = offers fills path ++ offers fills' path :=
  List.filterMap_append

/-- The fills without the first one of a path. -/
def withoutOffer (path : String) (fills : List (String × String)) : List (String × String) :=
  fills.eraseP (·.1 = path)

theorem offers_withoutOffer (path path' : String) (fills : List (String × String)) :
    offers (withoutOffer path fills) path' =
      if path' = path then (offers fills path').tail else offers fills path' := by
  induction fills with
  | nil => simp [withoutOffer, offers]
  | cons fill fills ih =>
    by_cases hfill : fill.1 = path
    · have hrest : withoutOffer path (fill :: fills) = fills := List.eraseP_cons_of_pos (by simp [hfill])
      rw [hrest, offers_cons]
      by_cases hpath : path' = path
      · rw [if_pos hpath, if_pos (hfill.trans hpath.symm), List.tail_cons]
      · rw [if_neg hpath, if_neg fun he => hpath (he.symm.trans hfill)]
    · have hrest : withoutOffer path (fill :: fills) = fill :: withoutOffer path fills :=
        List.eraseP_cons_of_neg (by simp [hfill])
      rw [hrest, offers_cons, offers_cons, ih]
      by_cases hpath : path' = path
      · rw [if_pos hpath, if_pos hpath, if_neg fun he => hfill (he.trans hpath),
          if_neg fun he => hfill (he.trans hpath)]
      · rw [if_neg hpath, if_neg hpath]

/-! ### The placeholders one after the other -/

/-- What a placeholder becomes by the offer it takes, if there is one for it. -/
def taken (p : Piece Tag) : Option String → Piece Tag
  | none => p
  | some text => .plain text.toList

/-- **A placeholder takes the first offer to its path**, and leaves the others to the pieces behind
it. -/
theorem puts_cons_placeholder (hp : p.tag? = some (.placeholder path))
    (fills : List (String × String)) (ps : Pieces) :
    puts fills (p :: ps) = taken p (offers fills path).head? :: puts (withoutOffer path fills) ps := by
  induction fills generalizing ps with
  | nil => rfl
  | cons fill fills ih =>
    have hstep : puts (fill :: fills) (p :: ps) =
        puts fills (put fill.1 fill.2.toList (p :: ps)) := rfl
    rw [hstep, offers_cons]
    by_cases hfill : fill.1 = path
    · have hput : put fill.1 fill.2.toList (p :: ps) = .plain fill.2.toList :: ps := by
        rw [put, put?_cons_of_eq (hfill ▸ hp), Option.getD_some]
      have hrest : withoutOffer path (fill :: fills) = fills := List.eraseP_cons_of_pos (by simp [hfill])
      have hplain : ∀ path, (Piece.plain fill.2.toList : Piece Tag).tag? ≠ some (.placeholder path) := by
        intro path htag
        cases htag
      rw [hput, puts_cons hplain, if_pos hfill, hrest]
      rfl
    · -- the fill passes by
      have hother : ¬ Reads [p] fill.1 := by
        rintro ⟨q, hq, htag⟩
        rw [List.mem_singleton.1 hq, hp] at htag
        exact hfill (Tag.placeholder.inj (Option.some.inj htag)).symm
      have hput : put fill.1 fill.2.toList (p :: ps) = p :: put fill.1 fill.2.toList ps :=
        put_append_of_not_reads hother ps
      have hrest : withoutOffer path (fill :: fills) = fill :: withoutOffer path fills :=
        List.eraseP_cons_of_neg (by simp [hfill])
      rw [hput, ih, if_neg hfill, hrest]
      rfl

/-- The number of placeholders of a path among the pieces. -/
def Pieces.uses (path : String) (ps : Pieces) : Nat := ps.countP (·.tag? = some (.placeholder path))

/-- Uses are counted piece by piece. -/
theorem uses_cons (path : String) (p : Piece Tag) (ps : Pieces) : uses path (p :: ps) =
    if p.tag? = some (.placeholder path) then uses path ps + 1 else uses path ps := by
  unfold uses
  rw [List.countP_cons]
  by_cases hp : p.tag? = some (.placeholder path) <;> simp [hp]

theorem uses_eq_zero : uses path ps = 0 ↔ ¬ Reads ps path := by
  simp [uses, Reads, List.countP_eq_zero]

/-- **What is left for the pieces behind others**: of the offers to each path as many are taken as there
are placeholders of the path in front. -/
theorem puts_append_drop (fills : List (String × String)) (a b : Pieces) :
    ∃ left, puts fills (a ++ b) = puts fills a ++ puts left b ∧
      ∀ path, offers left path = (offers fills path).drop (uses path a) := by
  -- piece by piece, as each placeholder takes one offer away from those behind it
  induction a generalizing fills with
  | nil =>
    have hnone : ∀ path, ¬ Reads ([] : Pieces) path := by simp [Reads]
    refine ⟨fills, ?_, fun path => rfl⟩
    rw [puts_of_not_reads hnone]
    rfl
  | cons p a ih =>
    by_cases hp : ∃ path, p.tag? = some (.placeholder path)
    · obtain ⟨path, hp⟩ := hp
      obtain ⟨left, hputs, hleft⟩ := ih (withoutOffer path fills)
      refine ⟨left, ?_, fun path' => ?_⟩
      · rw [List.cons_append, puts_cons_placeholder hp, puts_cons_placeholder hp, hputs,
          List.cons_append]
      · rw [hleft, offers_withoutOffer, uses_cons, hp]
        by_cases hpath : path' = path
        · rw [if_pos hpath, if_pos (by rw [hpath]), List.drop_tail]
        · rw [if_neg hpath, if_neg (by simpa using Ne.symm hpath)]
    · have hother : ∀ path, p.tag? ≠ some (.placeholder path) := fun path he => hp ⟨path, he⟩
      obtain ⟨left, hputs, hleft⟩ := ih fills
      refine ⟨left, ?_, fun path => ?_⟩
      · rw [List.cons_append, puts_cons hother, puts_cons hother, hputs, List.cons_append]
      · rw [hleft, uses_cons, if_neg (hother path)]

/-- **Only offers to paths that are read matter.** -/
theorem puts_congr (h : ∀ path, Reads ps path → offers fills path = offers fills' path) :
    puts fills ps = puts fills' ps := by
  induction ps generalizing fills fills' with
  | nil =>
    have hnone : ∀ path, ¬ Reads ([] : Pieces) path := by simp [Reads]
    rw [puts_of_not_reads hnone, puts_of_not_reads hnone]
  | cons p ps ih =>
    have hrest : ∀ path, Reads ps path → offers fills path = offers fills' path := by
      rintro path ⟨q, hq, htag⟩
      exact h path ⟨q, List.mem_cons_of_mem p hq, htag⟩
    by_cases hp : ∃ path, p.tag? = some (.placeholder path)
    · obtain ⟨path, hp⟩ := hp
      have hfront : offers fills path = offers fills' path := h path ⟨p, List.mem_cons_self, hp⟩
      rw [puts_cons_placeholder hp, puts_cons_placeholder hp, hfront]
      refine congrArg _ (ih fun path' hpath' => ?_)
      rw [offers_withoutOffer, offers_withoutOffer, hrest path' hpath']
    · have hother : ∀ path, p.tag? ≠ some (.placeholder path) := fun path he => hp ⟨path, he⟩
      rw [puts_cons hother, puts_cons hother, ih hrest]

/-! ### The offers of a context -/

theorem Fields.get?_eq_none_of_forall_ne {α : Type} {m : Fields α} (h : ∀ p ∈ m, p.1 ≠ key) :
    m.get? key = none := by
  induction m with
  | nil => rfl
  | cons p m ih =>
    obtain ⟨k, v⟩ := p
    rw [List.forall_mem_cons] at h
    rw [get?_cons, if_neg (Ne.symm h.1)]
    exact ih h.2

/-- No entry of sorted fields is behind another one of its name. -/
theorem Fields.get?_of_sorted_cons {α : Type} {p : String × α} {m : Fields α}
    (h : Sorted (p :: m)) : m.get? p.1 = none := by
  refine get?_eq_none_of_forall_ne fun q hq he => ?_
  have hlt : p.1 < q.1 := (List.pairwise_cons.1 h).1 q hq
  rw [he] at hlt
  exact String.lt_irrefl _ hlt

/-- The scalar that a mapping binds a key to, if it binds it to one. -/
def scalar? (key : String) (m : Mapping) : Option Value := (m.get? key).filter Value.isScalar

/-- A mapping with its names in order offers the scalar of a key, if there is one, and no more. -/
theorem offers_scalars (hm : Fields.Sorted m) (key : String) :
    offers (scalars m) key = ((scalar? key m).map Value.display).toList := by
  induction m with
  | nil => rfl
  | cons entry m ih =>
    obtain ⟨k, v⟩ := entry
    have hrest := ih (List.pairwise_cons.1 hm).2
    have hfront : k = key → Fields.get? m key = none := by
      rintro rfl
      exact Fields.get?_of_sorted_cons hm
    by_cases hscalar : v.isScalar = true
    · rw [scalars_cons_of_pos hscalar, offers_cons, hrest, scalar?, scalar?, Fields.get?_cons]
      by_cases hkey : k = key
      · rw [if_pos hkey, if_pos hkey.symm, hfront hkey, Option.filter_some_pos hscalar]
        rfl
      · rw [if_neg hkey, if_neg (Ne.symm hkey)]
    · rw [scalars_cons_of_neg hscalar, hrest, scalar?, scalar?, Fields.get?_cons]
      by_cases hkey : k = key
      · rw [if_pos hkey.symm, hfront hkey, Option.filter_some_neg (Bool.eq_false_iff.2 hscalar)]
        rfl
      · rw [if_neg (Ne.symm hkey)]

namespace Context

/-- Every entry has its keys in order, so that it binds none of them twice. -/
def IsSorted (c : Context) : Prop := ∀ m ∈ c.entries, Fields.Sorted m

instance (c : Context) : Decidable c.IsSorted :=
  inferInstanceAs (Decidable (∀ m ∈ c.entries, Fields.Sorted m))

/-- The scalars that the entries bind a key to, from the last entry to the first. -/
def scalarsOf (c : Context) (key : String) : List Value := c.entries.reverse.filterMap (scalar? key)

end Context

/-- **The offers of a context** to a key are the scalars that its entries bind it to. -/
theorem offers_fills (h : context.IsSorted) (key : String) :
    offers context.fills key = (context.scalarsOf key).map Value.display := by
  have hentries : ∀ m ∈ context.entries.reverse, Fields.Sorted m :=
    fun m hm => h m (List.mem_reverse.1 hm)
  unfold Context.fills Context.scalarsOf
  generalize context.entries.reverse = entries at hentries
  induction entries with
  | nil => rfl
  | cons m entries ih =>
    rw [List.forall_mem_cons] at hentries
    rw [List.flatMap_cons, offers_append, offers_scalars hentries.1, ih hentries.2, List.filterMap_cons]
    cases scalar? key m <;> rfl

/-! ### The merged view -/

/-- What is found after merging. -/
theorem Fields.get?_merge {α : Type} {m other : Fields α} (h : Sorted other) (key : String) :
    (merge m other).get? key = (other.get? key).or (m.get? key) := by
  induction other generalizing m with
  | nil => rfl
  | cons p other ih =>
    have hstep : merge m (p :: other) = merge (insert m p.1 p.2) other := rfl
    obtain ⟨k, v⟩ := p
    rw [hstep, ih (List.pairwise_cons.1 h).2, get?_insert, get?_cons]
    by_cases hkey : key = k
    · have hnone : get? other key = none := hkey ▸ get?_of_sorted_cons h
      rw [if_pos hkey, if_pos hkey, hnone]
      rfl
    · rw [if_neg hkey, if_neg hkey]

/-- **The last entry wins.** The merged view has a key from the last entry that binds it. -/
theorem get?_merged (h : context.IsSorted) (key : String) :
    context.merged.get? key = context.entries.reverse.findSome? (·.get? key) := by
  obtain ⟨entries⟩ := context
  cases entries with
  | nil => rfl
  | cons first rest =>
    have hrest : ∀ m ∈ rest, Fields.Sorted m := fun m hm => h m (List.mem_cons_of_mem first hm)
    have hone : ∀ m : Mapping, [m].findSome? (·.get? key) = m.get? key := by
      intro m
      rw [List.findSome?_cons]
      cases m.get? key <;> rfl
    -- on the mappings behind the first one, which is general
    have hfold : ∀ first : Mapping, (rest.foldl Fields.merge first).get? key =
        (rest.reverse.findSome? (·.get? key)).or (first.get? key) := by
      clear h
      induction rest with
      | nil => exact fun first => rfl
      | cons m rest ih =>
        intro first
        rw [List.forall_mem_cons] at hrest
        rw [List.foldl_cons, ih hrest.2, Fields.get?_merge hrest.1, List.reverse_cons,
          List.findSome?_append, hone, Option.or_assoc]
    have hmerged : (Context.mk (first :: rest)).merged = rest.foldl Fields.merge first := rfl
    rw [hmerged, hfold, List.reverse_cons, List.findSome?_append, hone]

/-- A scalar of the merged view is the first that is offered to its key. -/
theorem scalarsOf_of_merged (h : context.IsSorted) (hmerged : context.merged.get? key = some value)
    (hscalar : value.isScalar = true) : ∃ values, context.scalarsOf key = value :: values := by
  rw [get?_merged h] at hmerged
  unfold Context.scalarsOf
  generalize context.entries.reverse = entries at hmerged
  induction entries with
  | nil => cases hmerged
  | cons m entries ih =>
    cases hget : m.get? key with
    | none =>
      rw [List.findSome?_cons, hget] at hmerged
      rw [List.filterMap_cons_none (by rw [scalar?, hget]; rfl)]
      exact ih hmerged
    | some value' =>
      rw [List.findSome?_cons, hget] at hmerged
      obtain rfl : value' = value := Option.some.inj hmerged
      rw [List.filterMap_cons_some (by rw [scalar?, hget, Option.filter_some_pos hscalar])]
      exact ⟨_, rfl⟩

end Stencil
