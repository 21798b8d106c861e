import Stencil.Proofs.Refinement

/-!
# Fills

All that a context does to placeholders outside of loops is a list of fills: paths with texts, each of
which goes into the first placeholder of its path that is left. A placeholder that stands before
another one of its path has the fill first; texts that share no path do not see each other.

* `fillAll_eq_puts`: filling from a context is a list of fills.
* `puts_append_of_apart`: pieces that read no common path are filled apart.
* `puts_append`: what is left of the fills for the pieces behind others.
-/

namespace Stencil

open Text Tag Pieces

/-- The scalars of a mapping as they are written, with their keys. -/
def scalars (m : Mapping) : List (String × String) :=
  m.filterMap fun entry => if entry.2.isScalar then some (entry.1, entry.2.display) else none

/-- The fills of a context, in the order in which they are made. -/
def Context.fills (c : Context) : List (String × String) := c.entries.reverse.flatMap scalars

namespace Pieces

/-- Several texts put in place of placeholders, one after the other. -/
def puts (fills : List (String × String)) (ps : Pieces) : Pieces :=
  fills.foldl (fun ps fill => put fill.1 fill.2.toList ps) ps

/-- A placeholder of the path is among the pieces. -/
def Reads (ps : Pieces) (path : String) : Prop := ∃ q ∈ ps, q.tag? = some (.placeholder path)

end Pieces

variable {ps a b : Pieces} {p : Piece Tag} {path path' : String} {text : List Char}
  {fills : List (String × String)} {nodes : List Node} {K : Piece Tag → Prop}

theorem scalars_cons_of_pos {entry : String × Value} (h : entry.2.isScalar = true) (m : Mapping) :
    scalars (entry :: m) = (entry.1, entry.2.display) :: scalars m :=
  List.filterMap_cons_some (if_pos h)

theorem scalars_cons_of_neg {entry : String × Value} (h : ¬ entry.2.isScalar = true) (m : Mapping) :
    scalars (entry :: m) = scalars m := List.filterMap_cons_none (if_neg h)

/-- Filling from a record is putting its scalars in place one after the other. -/
theorem fill_eq_puts (m : Mapping) (ps : Pieces) : fill none ps m = puts (scalars m) ps := by
  induction m generalizing ps with
  | nil => rfl
  | cons entry m ih =>
    have hstep : fill none ps (entry :: m) = fill none (fillOne none ps entry.1 entry.2) m := rfl
    rw [hstep, ih, fillOne]
    by_cases hscalar : entry.2.isScalar = true
    · rw [scalars_cons_of_pos hscalar, if_pos hscalar]
      rfl
    · rw [scalars_cons_of_neg hscalar, if_neg hscalar]

/-- **Filling from a context** is a list of fills. -/
theorem fillAll_eq_puts (ps : Pieces) (context : Context) :
    fillAll ps context = puts context.fills ps := by
  unfold fillAll Context.fills
  generalize context.entries.reverse = entries
  induction entries generalizing ps with
  | nil => rfl
  | cons m entries ih =>
    rw [List.foldl_cons, ih, fill_eq_puts, List.flatMap_cons, puts, puts, puts, List.foldl_append]

/-- What a context fills in are the scalars of its mappings. -/
theorem mem_fills {context : Context} {fill : String × String} (h : fill ∈ context.fills) :
    ∃ m ∈ context.entries, ∃ entry ∈ m, entry.2.isScalar = true ∧ fill = (entry.1, entry.2.display) := by
  obtain ⟨m, hm, hfill⟩ := List.mem_flatMap.1 h
  obtain ⟨entry, hentry, he⟩ := List.mem_filterMap.1 hfill
  split at he
  · next hscalar => exact ⟨m, List.mem_reverse.1 hm, entry, hentry, hscalar, (Option.some.inj he).symm⟩
  · cases he

/-! ### One fill -/

theorem put?_eq_none_of_not_reads (h : ¬ Reads ps path) : put? path text ps = none :=
  put?_eq_none.2 fun q hq htag => h ⟨q, hq, htag⟩

/-- Where no placeholder reads a path, nothing is put. -/
theorem put_of_not_reads (h : ¬ Reads ps path) : put path text ps = ps := by
  rw [put, put?_eq_none_of_not_reads h]
  rfl

/-- What does not read a path is passed over. -/
theorem put_append_of_not_reads (h : ¬ Reads a path) (b : Pieces) :
    put path text (a ++ b) = a ++ put path text b := by
  rw [put, put, put?_append, put?_eq_none_of_not_reads h]
  cases put? path text b <;> rfl

/-- What reads a path takes what is put, and what stands behind it does not see it. -/
theorem put_append_of_reads (h : Reads a path) (b : Pieces) :
    put path text (a ++ b) = put path text a ++ b := by
  rw [put, put, put?_append]
  cases hput : put? path text a with
  | some a' => rfl
  | none =>
    obtain ⟨q, hq, htag⟩ := h
    exact absurd htag (put?_eq_none.1 hput q hq)

/-- A fill takes placeholders away, and brings none. -/
theorem reads_of_put (h : Reads (put path' text ps) path) : Reads ps path := by
  obtain ⟨q, hq, htag⟩ := h
  have hput : ∀ q ∈ put path' text ps, q.tag? = some (.placeholder path) → Reads ps path :=
    forall_mem_put (fun q hq htag => ⟨q, hq, htag⟩) nofun
  exact hput q hq htag

theorem not_reads_singleton (h : ∀ path, p.tag? ≠ some (.placeholder path)) (path : String) :
    ¬ Reads [p] path := by
  rintro ⟨q, hq, htag⟩
  rw [List.mem_singleton.1 hq] at htag
  exact h _ htag

/-! ### Lists of fills -/

/-- A piece that is no placeholder is passed over. -/
theorem puts_cons (h : ∀ path, p.tag? ≠ some (.placeholder path)) (fills : List (String × String))
    (ps : Pieces) : puts fills (p :: ps) = p :: puts fills ps := by
  induction fills generalizing ps with
  | nil => rfl
  | cons fill fills ih =>
    have hput : put fill.1 fill.2.toList (p :: ps) = p :: put fill.1 fill.2.toList ps :=
      put_append_of_not_reads (not_reads_singleton h fill.1) ps
    rw [puts, List.foldl_cons, hput]
    exact ih _

/-- Pieces without placeholders stay as they are. -/
theorem puts_of_not_reads (h : ∀ path, ¬ Reads ps path) (fills : List (String × String)) :
    puts fills ps = ps := by
  induction fills with
  | nil => rfl
  | cons fill fills ih =>
    rw [puts, List.foldl_cons, put_of_not_reads (h fill.1)]
    exact ih

/-- **Pieces that share no path are filled apart.** -/
theorem puts_append_of_apart (h : ∀ fill ∈ fills, ¬ Reads a fill.1 ∨ ¬ Reads b fill.1) :
    puts fills (a ++ b) = puts fills a ++ puts fills b := by
  induction fills generalizing a b with
  | nil => rfl
  | cons fill fills ih =>
    rw [List.forall_mem_cons] at h
    have hput : put fill.1 fill.2.toList (a ++ b) =
        put fill.1 fill.2.toList a ++ put fill.1 fill.2.toList b := by
      rcases h.1 with ha | hb
      · rw [put_append_of_not_reads ha, put_of_not_reads ha]
      · by_cases ha : Reads a fill.1
        · rw [put_append_of_reads ha, put_of_not_reads hb]
        · rw [put_append_of_not_reads ha, put_of_not_reads ha]
    rw [puts, List.foldl_cons, hput]
    exact ih fun other hother => (h.2 other hother).imp (mt reads_of_put) (mt reads_of_put)

/-- **The first pieces are filled as if they stood alone**, and the fills that they leave go to the
pieces behind them. -/
theorem puts_append (fills : List (String × String)) (a b : Pieces) :
    ∃ left : List (String × String), puts fills (a ++ b) = puts fills a ++ puts left b := by
  induction fills generalizing a b with
  | nil => exact ⟨[], rfl⟩
  | cons fill fills ih =>
    by_cases ha : Reads a fill.1
    · -- the fill is used up in front
      obtain ⟨left, hleft⟩ := ih (put fill.1 fill.2.toList a) b
      refine ⟨left, ?_⟩
      rw [puts, List.foldl_cons, put_append_of_reads ha]
      exact hleft
    · obtain ⟨left, hleft⟩ := ih a (put fill.1 fill.2.toList b)
      refine ⟨fill :: left, ?_⟩
      rw [puts, List.foldl_cons, put_append_of_not_reads ha, puts, List.foldl_cons,
        put_of_not_reads ha]
      exact hleft

/-- The pieces around a body are passed over. -/
theorem puts_between {q : Piece Tag} (hp : ∀ path, p.tag? ≠ some (.placeholder path))
    (hq : ∀ path, q.tag? ≠ some (.placeholder path)) (fills : List (String × String)) (ps : Pieces) :
    puts fills (p :: (ps ++ [q])) = p :: (puts fills ps ++ [q]) := by
  have hnone := not_reads_singleton hq
  rw [puts_cons hp, puts_append_of_apart fun fill _ => .inr (hnone fill.1), puts_of_not_reads hnone]

theorem reads_of_between {q : Piece Tag} (hp : ∀ path, p.tag? ≠ some (.placeholder path))
    (hq : ∀ path, q.tag? ≠ some (.placeholder path)) (h : Reads (p :: (ps ++ [q])) path) :
    Reads ps path := by
  obtain ⟨r, hr, htag⟩ := h
  rcases List.mem_cons.1 hr with rfl | hr
  · exact absurd htag (hp path)
  · rcases List.mem_append.1 hr with hr | hr
    · exact ⟨r, hr, htag⟩
    · rw [List.mem_singleton.1 hr] at htag
      exact absurd htag (hq path)

/-- What holds of plain pieces holds of all that is put. -/
theorem forall_mem_puts (hplain : ∀ text, K (.plain text)) (hps : ∀ q ∈ ps, K q) :
    ∀ q ∈ puts fills ps, K q := by
  induction fills generalizing ps with
  | nil => exact hps
  | cons fill fills ih => exact ih (forall_mem_put hps (hplain _))

/-- Filled pieces spell a tree if the pieces do. -/
theorem spell_puts (h : Spell ps nodes) (fills : List (String × String)) :
    ∃ nodes', Spell (puts fills ps) nodes' := by
  induction fills generalizing ps nodes with
  | nil => exact ⟨nodes, h⟩
  | cons fill fills ih =>
    rw [puts, List.foldl_cons]
    exact ih (spell_put h fill.1 fill.2)

end Stencil
