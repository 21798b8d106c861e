import Mathlib.Data.List.Nodup
import Stencil.Proofs.Concatenation
import Stencil.Proofs.Offers

/-!
# Loops and conditionals commute

Conditions are read against the whole data, also inside a loop, so that it should not matter whether a
conditional in the body of a loop is resolved once for all rows or once in each of them. It does matter
where a branch that is dropped has the first placeholder of a path in it, as this one takes the field of
the row away from the next. Where no body has two placeholders of a path, a field is put in for all
placeholders of its path, which is done piece by piece: the two passes come to the same in either order.

* `Node.loopBodies`: the loops of a tree.
* `Once`: pieces without two placeholders of a path. `put_eq_map`: these are filled piece by piece.
* `conditionals_expandRow`: resolving conditionals in a row.
* `loops_conditionals_comm`: the two passes over a template in either order.
-/

namespace Stencil

open Text Tag Pieces

namespace Node

mutual

/-- The loops in a node, at any depth, as their keys and bodies in the order of the template. -/
def loopBodies : Node → List (String × List Node)
  | plain _ => []
  | placeholder _ => []
  | loop key _ body => (key, body) :: loopBodiesOfAll body
  | conditional _ _ whenTrue whenFalse => loopBodiesOfAll whenTrue ++ loopBodiesOfBranch whenFalse

/-- The keys and the bodies of the loops in several nodes. -/
def loopBodiesOfAll : List Node → List (String × List Node)
  | [] => []
  | n :: ns => n.loopBodies ++ loopBodiesOfAll ns

/-- The keys and the bodies of the loops in a branch that may be absent. -/
def loopBodiesOfBranch : Option (List Node) → List (String × List Node)
  | none => []
  | some ns => loopBodiesOfAll ns

end

end Node

variable {ps a b body : Pieces} {p q x z : Piece Tag} {nodes : List Node} {path key : String}
  {text : List Char} {row : Option String} {value : Value} {data : Mapping} {missing : MissingBlocks}
  {inLoop inConditional : Bool} {tag : Tag}

/-! ### Placeholders of a path -/

/-- **No placeholder of a path stands behind another one of it.** -/
def Once (ps : Pieces) : Prop := ∀ path, uses path ps ≤ 1

/-- Uses are counted piece by piece. -/
theorem uses_append (path : String) (a b : Pieces) :
    uses path (a ++ b) = uses path a + uses path b := List.countP_append

/-- A piece that is not the placeholder does not count. -/
theorem uses_of_ne (h : p.tag? ≠ some (.placeholder path)) : uses path (p :: ps) = uses path ps := by
  rw [uses_cons, if_neg h]

theorem tag?_ne_placeholder (h : p.lexeme = .tag tag) (hne : ∀ path, tag ≠ .placeholder path)
    (path : String) : p.tag? ≠ some (.placeholder path) := tag?_ne_of_lexeme h (hne path)

/-- The placeholders among the pieces are those of the tree that they spell. -/
theorem uses_of_spell (h : Spell ps nodes) (path : String) :
    uses path ps = (Node.pathsOfAll nodes).count path := by
  induction h with
  | nil => rfl
  | plain hx _ ih =>
    rw [uses_of_ne (by simp [tag?_of_lexeme_plain hx]), ih, Node.pathsOfAll, Node.paths,
      List.nil_append]
  | @placeholder x xs path' nodes hx _ ih =>
    rw [uses_cons, tag?_of_lexeme hx, ih, Node.pathsOfAll, Node.paths, List.singleton_append,
      List.count_cons]
    by_cases hpath : path' = path <;> simp [hpath]
  | loop hx _ _ hy _ ihbody ih =>
    rw [uses_of_ne (tag?_ne_placeholder hx nofun path), uses_append, uses_of_ne (tag?_ne_placeholder hy nofun path), ihbody, ih,
      Node.pathsOfAll, Node.paths, List.count_append]
  | single hx _ _ hy _ ihbranch ih =>
    rw [uses_of_ne (tag?_ne_placeholder hx nofun path), uses_append, uses_of_ne (tag?_ne_placeholder hy nofun path), ihbranch, ih,
      Node.pathsOfAll, Node.paths, Node.pathsOfBranch, List.append_nil, List.count_append]
  | double hx _ _ hy _ hz _ ihtrue ihfalse ih =>
    rw [uses_of_ne (tag?_ne_placeholder hx nofun path), uses_append, uses_of_ne (tag?_ne_placeholder hy nofun path), uses_append,
      uses_of_ne (tag?_ne_placeholder hz nofun path), ihtrue, ihfalse, ih, Node.pathsOfAll, Node.paths,
      Node.pathsOfBranch, List.count_append, List.count_append, Nat.add_assoc]

/-- Where the tree has each path once, so have the pieces. -/
theorem once_of_spell (h : Spell ps nodes) (hnodes : (Node.pathsOfAll nodes).Nodup) : Once ps := by
  intro path
  rw [uses_of_spell h]
  exact List.nodup_iff_count_le_one.1 hnodes path

/-- A fill leaves no more placeholders than there were. -/
theorem once_of_filled {path : String} (text : List Char) (_ : p.tag? = some (.placeholder path))
    (h : Once (a ++ p :: b)) : Once (a ++ .plain text :: b) := by
  intro path'
  have huses := h path'
  rw [uses_append, uses_cons] at huses
  have hplain : (Piece.plain text : Piece Tag).tag? ≠ some (.placeholder path') := nofun
  rw [uses_append, uses_of_ne hplain]
  split at huses <;> omega

/-! ### Filling piece by piece -/

/-- The piece as the text, if it is a placeholder of the path. -/
def fillPiece (path : String) (text : List Char) (p : Piece Tag) : Piece Tag :=
  if p.tag? = some (.placeholder path) then .plain text else p

/-- Piece by piece, all tags but placeholders are kept. -/
def KeepsTags (g : Piece Tag → Piece Tag) : Prop :=
  ∀ tag, (∀ path, tag ≠ .placeholder path) → ∀ p, (g p).tag? = some tag ↔ p.tag? = some tag

/-- Filling a placeholder changes no other tag. -/
theorem keepsTags_fillPiece (path : String) (text : List Char) : KeepsTags (fillPiece path text) := by
  intro tag htag p
  unfold fillPiece
  split
  · next hp =>
    rw [hp, Option.some_inj]
    exact ⟨nofun, fun he => absurd he.symm (htag path)⟩
  · rfl

/-- **A path with one placeholder is filled piece by piece.** -/
theorem put_eq_map (h : uses path ps ≤ 1) : put path text ps = ps.map (fillPiece path text) := by
  induction ps with
  | nil => rfl
  | cons p ps ih =>
    rw [uses_cons] at h
    by_cases hp : p.tag? = some (.placeholder path)
    · rw [if_pos hp] at h
      have hrest : ps.map (fillPiece path text) = ps := by
        have hnone := uses_eq_zero.1 (Nat.le_zero.1 (Nat.le_of_succ_le_succ h))
        rw [← List.map_id ps, List.map_map]
        exact List.map_congr_left fun q hq => if_neg fun he => hnone ⟨q, hq, he⟩
      rw [put, put?_cons_of_eq hp, Option.getD_some, List.map_cons, hrest, fillPiece, if_pos hp]
    · rw [if_neg hp] at h
      rw [List.map_cons, ← ih h, fillPiece, if_neg hp, put, put?_cons_of_ne hp, put]
      cases put? path text ps <;> rfl

/-! ### Conditionals piece by piece -/

/-- A cut goes along with a change that keeps its tag. -/
theorem cutAt?_map {g : Piece Tag → Piece Tag}
    (hg : ∀ p, (g p).tag? = some tag ↔ p.tag? = some tag) (ps : Pieces) :
    cutAt? tag (ps.map g) = (cutAt? tag ps).map fun (a, q, b) => (a.map g, g q, b.map g) := by
  induction ps with
  | nil => rfl
  | cons p ps ih =>
    rw [List.map_cons, cutAt?, cutAt?]
    by_cases hp : p.tag? = some tag
    · rw [if_pos hp, if_pos ((hg p).2 hp)]
      rfl
    · rw [if_neg hp, if_neg fun he => hp ((hg p).1 he), ih]
      simp [Option.map_map, Function.comp_def]

/-- The choice of a branch goes along with a change that keeps the tag between them. -/
theorem branch_map {g : Piece Tag → Piece Tag}
    (hg : ∀ p, (g p).tag? = some .otherwise ↔ p.tag? = some .otherwise) (holds : Bool) (ps : Pieces) :
    branch holds (ps.map g) = (branch holds ps).map g := by
  unfold branch
  rw [cutAt?_map hg]
  cases cutAt? .otherwise ps with
  | none => cases holds <;> rfl
  | some y => cases holds <;> rfl

theorem KeepsTags.opened? {g : Piece Tag → Piece Tag} (hg : KeepsTags g) (p : Piece Tag) :
    BlockKind.conditional.opened? (g p) = BlockKind.conditional.opened? p := by
  have hiff : ∀ (p : Piece Tag) (c : Condition),
      BlockKind.conditional.opened? p = some c ↔ p.tag? = some (.ifOpen c) := by
    intro p c
    rw [BlockKind.opened?, Option.bind_eq_some_iff]
    constructor
    · rintro ⟨tag, htag, hc⟩
      rwa [BlockKind.conditional.opening?_eq_some.1 hc] at htag
    · exact fun htag => ⟨_, htag, rfl⟩
  refine Option.ext fun c => ?_
  rw [hiff, hiff, hg (.ifOpen c) (by simp)]

/-- Conditionals are resolved alike where all tags but placeholders are kept. -/
theorem conditionals_map {g : Piece Tag → Piece Tag} (hg : KeepsTags g) (data : Mapping) (ps : Pieces) :
    conditionals data (ps.map g) = (conditionals data ps).map g := by
  have hclose : ∀ {qs : Pieces}, (∀ q ∈ qs, q.tag? ≠ some .ifClose) →
      ∀ q ∈ qs.map g, q.tag? ≠ some .ifClose := by
    intro qs hqs q hq
    obtain ⟨r, hr, rfl⟩ := List.mem_map.1 hq
    exact fun he => hqs r hr ((hg .ifClose nofun r).1 he)
  unfold conditionals
  induction ps using expand_induction .conditional with
  | hnil => rw [List.map_nil, expand_nil, List.map_nil]
  | hcons p ps hopen ih =>
    have hmap : BlockKind.conditional.opened? (g p) = none ∨
        ∀ q ∈ ps.map g, q.tag? ≠ some BlockKind.conditional.closing :=
      hopen.imp (hg.opened? p).trans hclose
    rw [List.map_cons, hopen.elim expand_cons expand_unclosed, hmap.elim expand_cons expand_unclosed,
      ih, List.map_cons]
  | hblock p c body q ps hp hbody hq ih =>
    rw [List.map_cons, List.map_append, List.map_cons, expand_block hp hbody hq,
      expand_block ((hg.opened? p).trans hp) (hclose hbody) ((hg .ifClose nofun q).2 hq), ih,
      Option.getD_some, Option.getD_some, branch_map (hg .otherwise nofun), List.map_append]

/-- A branch has no pieces of its own. -/
theorem branch_sublist (holds : Bool) (ps : Pieces) : (branch holds ps).Sublist ps := by
  unfold branch
  cases hcut : cutAt? .otherwise ps with
  | none =>
    cases holds
    · exact List.nil_sublist ps
    · exact List.Sublist.refl ps
  | some y =>
    obtain ⟨a, q, b⟩ := y
    obtain ⟨rfl, -, -⟩ := cutAt?_eq_some hcut
    cases holds
    · exact (List.sublist_cons_self q b).trans (List.sublist_append_right a (q :: b))
    · exact List.sublist_append_left a (q :: b)

/-- Resolving conditionals drops pieces, and changes none. -/
theorem conditionals_sublist (data : Mapping) (ps : Pieces) : (conditionals data ps).Sublist ps := by
  unfold conditionals
  induction ps using expand_induction .conditional with
  | hnil => rw [expand_nil]
  | hcons p ps hopen ih =>
    rw [hopen.elim expand_cons expand_unclosed]
    exact ih.cons_cons p
  | hblock p c body q ps hp hbody hq ih =>
    rw [expand_block hp hbody hq, Option.getD_some]
    exact ((branch_sublist _ body).append (ih.cons q)).cons p

/-- Resolving conditionals adds no placeholder. -/
theorem Once.conditionals (h : Once ps) : Once (conditionals data ps) :=
  fun path => Nat.le_trans (conditionals_sublist data ps).countP_le (h path)

/-! ### Conditionals in rows -/

/-- Filling a placeholder goes before resolving or behind it, where there is only one of its path. -/
theorem conditionals_put (h : Once ps) : conditionals data (put path text ps) =
    put path text (conditionals data ps) := by
  rw [put_eq_map (h path), put_eq_map (h.conditionals path),
    conditionals_map (keepsTags_fillPiece path text)]

/-- Filling a key goes before resolving or behind it. -/
theorem conditionals_fillOne (h : Once ps) : conditionals data (fillOne row ps key value) =
    fillOne row (conditionals data ps) key value := by
  unfold fillOne
  by_cases hscalar : value.isScalar = true
  · rw [if_pos hscalar, if_pos hscalar]
    exact conditionals_put h
  · rw [if_neg hscalar, if_neg hscalar]

/-- Filling from a record goes before resolving or behind it, by induction on its entries. -/
theorem conditionals_fill {record : Mapping} (h : Once ps) : conditionals data (fill row ps record) =
    fill row (conditionals data ps) record := by
  induction record generalizing ps with
  | nil => rfl
  | cons entry record ih =>
    have hfilled : Once (fillOne row ps entry.1 entry.2) := fillOne_keeps once_of_filled h
    have hstep : ∀ ps, fill row ps (entry :: record) = fill row (fillOne row ps entry.1 entry.2) record :=
      fun _ => rfl
    rw [hstep, hstep, ih hfilled, conditionals_fillOne h]

/-- **A row may be filled before or after the conditionals in it are resolved**, where no path has two
placeholders in it. -/
theorem conditionals_expandRow (h : Once body) (row : Value) :
    conditionals data (expandRow key body row) = expandRow key (conditionals data body) row := by
  cases row with
  | mapping fields => exact conditionals_fill h
  | _ => exact conditionals_fillOne h

theorem conditionals_nil : conditionals data [] = [] := expand_nil

/-- Pieces that contain their conditionals are resolved apart from what stands behind them. -/
theorem conditionals_append (h : Contained .conditional a) (b : Pieces) :
    conditionals data (a ++ b) = conditionals data a ++ conditionals data b := expand_append h b

/-- **The rows of a loop** are resolved one by one, as its body would have been. -/
theorem conditionals_rows (h : Once body) (hbody : Contained .conditional body) (values : List Value) :
    conditionals data (values.flatMap (expandRow key body)) =
      values.flatMap (expandRow key (conditionals data body)) := by
  induction values with
  | nil => exact conditionals_nil
  | cons v values ih =>
    rw [List.flatMap_cons, List.flatMap_cons, conditionals_append (contained_expandRow hbody v), ih,
      conditionals_expandRow h]

/-! ### One block -/

/-- A pass that replaces nothing changes nothing. -/
theorem expand_of_none {α : Type} {k : BlockKind α} {f : α → Pieces → Option Pieces}
    (h : ∀ x body, f x body = none) (ps : Pieces) : expand k f ps = ps := by
  induction ps using expand_induction k with
  | hnil => exact expand_nil
  | hcons p ps hopen ih => rw [hopen.elim expand_cons expand_unclosed, ih]
  | hblock p x body q ps hp hbody hq ih => rw [expand_block hp hbody hq, h, ih]; simp

/-- The conditionals of pieces that spell a tree do not reach out of them. -/
theorem contained_conditional (h : Spell ps nodes) : Contained .conditional ps := by
  -- a pass that keeps all loops
  have hloops : loops [] .preserve ps = ps := expand_of_none (fun _ _ => rfl) ps
  have hawaits : Awaits [] (ps ++ []) := Awaits.append h .nil
  rw [List.append_nil] at hawaits
  have hcontained : Contained .conditional (loops [] .preserve ps) := hawaits.contained_loops.1
  rwa [hloops] at hcontained

theorem loops_nil : loops data missing [] = [] := expand_nil

/-- A piece that opens no loop stays. -/
theorem loops_cons (h : BlockKind.loop.opened? p = none) :
    loops data missing (p :: ps) = p :: loops data missing ps := expand_cons h

/-- Pieces that contain their loops are expanded apart from what stands behind them. -/
theorem loops_append (h : Contained .loop a) (b : Pieces) :
    loops data missing (a ++ b) = loops data missing a ++ loops data missing b := expand_append h b

/-- A loop is replaced by its rows, or stays where it has none. -/
theorem loops_eachOpen (hx : x.lexeme = .tag (.eachOpen key)) (hz : z.lexeme = .tag .eachClose)
    (hfree : ∀ q ∈ body, q.tag? ≠ some .eachClose) (ps : Pieces) :
    loops data missing (x :: (body ++ z :: ps)) =
      (rows? data missing key body).getD (x :: body ++ [z]) ++ loops data missing ps :=
  expand_block (opened?_of_lexeme _ hx) hfree (tag?_of_lexeme hz)

/-- The conditionals in what takes the place of a loop can be resolved in its body. -/
theorem conditionals_rows? (honce : Once body) (hbody : Contained .conditional body) :
    (∀ made, rows? data missing key body = some made → Contained .conditional made) ∧
      (rows? data missing key body).map (conditionals data) =
        rows? data missing key (conditionals data body) := by
  unfold rows?
  cases data.get? key with
  | some value =>
    refine ⟨?_, congrArg some (conditionals_rows honce hbody value.rows)⟩
    rintro made ⟨⟩
    exact contained_rows hbody value.rows
  | none =>
    cases missing with
    | preserve => exact ⟨nofun, rfl⟩
    | remove =>
      refine ⟨?_, congrArg some conditionals_nil⟩
      rintro made ⟨⟩
      trivial

/-- **A loop whose body has conditionals in it** and no path twice. -/
theorem comm_loop (hx : x.lexeme = .tag (.eachOpen key)) (hz : z.lexeme = .tag .eachClose)
    (honce : Once body) (hbody : Contained .conditional body)
    (hfree : ∀ q ∈ body, q.tag? ≠ some .eachClose)
    (ih : conditionals data (loops data missing ps) = loops data missing (conditionals data ps)) :
    conditionals data (loops data missing (x :: (body ++ z :: ps))) =
      loops data missing (conditionals data (x :: (body ++ z :: ps))) := by
  have hopen : BlockKind.conditional.opened? x = none := opened?_of_lexeme _ hx
  have hclose : BlockKind.conditional.opened? z = none := opened?_of_lexeme _ hz
  have hblock : ∀ qs, conditionals data (x :: (body ++ z :: qs)) =
      x :: (conditionals data body ++ z :: conditionals data qs) := by
    intro qs
    unfold conditionals
    rw [expand_cons hopen, expand_append hbody, expand_cons hclose]
  have hfree' : ∀ q ∈ conditionals data body, q.tag? ≠ some .eachClose :=
    fun q hq => hfree q ((conditionals_sublist data body).subset hq)
  have hrows : (rows? data missing key body).map (conditionals data) =
      rows? data missing key (conditionals data body) := (conditionals_rows? honce hbody).2
  rw [hblock, loops_eachOpen hx hz hfree, loops_eachOpen hx hz hfree', ← hrows]
  cases hmade : rows? data missing key body with
  | some made =>
    have hcontained := (conditionals_rows? honce hbody).1 made hmade
    exact (conditionals_append hcontained _).trans (congrArg _ ih)
  | none =>
    -- the loop stays, with the conditionals in it resolved
    have hkept := hblock (loops data missing ps)
    rw [ih] at hkept
    simpa using hkept

/-- **A conditional whose branches have loops in them.** -/
theorem comm_conditional {c : Condition} (hx : x.lexeme = .tag (.ifOpen c))
    (hz : z.lexeme = .tag .ifClose) (hbody : Contained .loop body)
    (hfree : ∀ q ∈ body, q.tag? ≠ some .ifClose)
    (hbranch : Contained .loop (branch (c.holds data) body) ∧
      branch (c.holds data) (loops data missing body) = loops data missing (branch (c.holds data) body))
    (ih : conditionals data (loops data missing ps) = loops data missing (conditionals data ps)) :
    conditionals data (loops data missing (x :: (body ++ z :: ps))) =
      loops data missing (conditionals data (x :: (body ++ z :: ps))) := by
  have hfree' : ∀ q ∈ loops data missing body, q.tag? ≠ some .ifClose := forall_mem_loops nofun hfree
  rw [loops_cons (opened?_of_lexeme _ hx), loops_append hbody, loops_cons (opened?_of_lexeme _ hz),
    conditionals, expand_block (opened?_of_lexeme _ hx) hfree' (tag?_of_lexeme hz), conditionals,
    expand_block (opened?_of_lexeme _ hx) hfree (tag?_of_lexeme hz), Option.getD_some,
    Option.getD_some, hbranch.2]
  exact (congrArg _ ih).trans (loops_append hbranch.1 _).symm

/-! ### Whole trees -/

/-- Inside a conditional there is no other one. -/
theorem unconditional_of_fits (h : Fits inLoop true p) : Unconditional p := by
  intro tag htag
  have hfits := h tag htag
  cases tag <;> simp_all [Tag.fits, Tag.isConditional]

/-- **The two passes commute** on the pieces of a tree whose blocks are apart, and in which no body of a
loop has two placeholders of a path. -/
theorem loops_conditionals_comm_of_spell (h : Spell ps nodes)
    (hnodes : Resolvable (fun _ => True) inLoop inConditional nodes)
    (hbodies : ∀ l ∈ Node.loopBodiesOfAll nodes, (Node.pathsOfAll l.2).Nodup) :
    conditionals data (loops data missing ps) = loops data missing (conditionals data ps) := by
  have hcons : ∀ {p : Piece Tag} {ps : Pieces}, BlockKind.loop.opened? p = none →
      BlockKind.conditional.opened? p = none →
      conditionals data (loops data missing ps) = loops data missing (conditionals data ps) →
      conditionals data (loops data missing (p :: ps)) =
        loops data missing (conditionals data (p :: ps)) := by
    intro p ps hloop hconditional ih
    rw [loops_cons hloop, conditionals, expand_cons hconditional, conditionals,
      expand_cons hconditional, loops_cons hloop]
    exact congrArg _ ih
  -- on the nodes: a block is replaced by one of the passes, and the other one goes through it
  induction h generalizing inLoop inConditional with
  | nil => rw [loops_nil, conditionals_nil, loops_nil]
  | plain hx _ ih =>
    cases hnodes with
    | plain hnodes =>
      exact hcons (opened?_of_lexeme_plain _ hx) (opened?_of_lexeme_plain _ hx) (ih hnodes hbodies)
  | placeholder hx _ ih =>
    cases hnodes with
    | placeholder hnodes =>
      exact hcons (opened?_of_lexeme _ hx) (opened?_of_lexeme _ hx) (ih hnodes hbodies)
  | loop hx _ hbody hy _ _ ih =>
    rw [Node.loopBodiesOfAll, Node.loopBodies, List.cons_append, List.forall_mem_cons,
      List.forall_mem_append] at hbodies
    cases hnodes with
    | loop _ hinner hnodes =>
      have hfits := fits_of_spell hbody hinner
      exact comm_loop hx hy (once_of_spell hbody hbodies.1) (contained_conditional hbody)
        (fun q hq => (hfits q hq).ne rfl) (ih hnodes hbodies.2.2)
  | single hx _ hbranch hy _ _ ih =>
    rw [Node.loopBodiesOfAll, List.forall_mem_append] at hbodies
    cases hnodes with
    | single hinner hnodes =>
      have hfree := fun q hq => unconditional_of_fits (fits_of_spell hbranch hinner q hq)
      refine comm_conditional hx hy (contained_loop hbranch) (fun q hq => (hfree q hq).ne rfl) ?_
        (ih hnodes hbodies.2)
      rw [branch_of_forall fun q hq => (hfree q hq).ne rfl, branch_of_forall fun q hq =>
        (forall_mem_loops unconditional_plain hfree q hq).ne rfl]
      split
      · exact ⟨contained_loop hbranch, rfl⟩
      · exact ⟨trivial, expand_nil.symm⟩
  | @double x y z inner inner' xs c offset whenTrue whenFalse nodes hx _ htrue hy hfalse hz _ _ _ ih =>
    rw [Node.loopBodiesOfAll, List.forall_mem_append] at hbodies
    cases hnodes with
    | double hinner hinner' hnodes =>
      have hfree := fun q hq => unconditional_of_fits (fits_of_spell htrue hinner q hq)
      have hfree' := fun q hq => unconditional_of_fits (fits_of_spell hfalse hinner' q hq)
      have hmiddle : BlockKind.loop.opened? y = none := opened?_of_lexeme _ hy
      have hbody : Contained .loop (inner ++ y :: inner') :=
        (contained_loop htrue).append ⟨fun hopen => absurd hmiddle hopen, contained_loop hfalse⟩
      have hopen : ∀ q ∈ inner ++ y :: inner', q.tag? ≠ some .ifClose := by
        rw [List.forall_mem_append, List.forall_mem_cons]
        exact ⟨fun q hq => (hfree q hq).ne rfl, tag?_ne_of_lexeme hy (by simp),
          fun q hq => (hfree' q hq).ne rfl⟩
      have hsplit : inner ++ y :: (inner' ++ z :: xs) = (inner ++ y :: inner') ++ z :: xs := by simp
      rw [hsplit]
      refine comm_conditional hx hz hbody hopen ?_ (ih hnodes hbodies.2)
      rw [loops_append (contained_loop htrue), loops_cons hmiddle,
        branch_append (fun q hq => (hfree q hq).ne rfl) (tag?_of_lexeme hy),
        branch_append (fun q hq => (forall_mem_loops unconditional_plain hfree q hq).ne rfl)
          (tag?_of_lexeme hy)]
      split
      · exact ⟨contained_loop htrue, rfl⟩
      · exact ⟨contained_loop hfalse, rfl⟩

/-- **Loops and conditionals may be expanded in either order.** For a clean template whose blocks are
apart, and in which no body of a loop has two placeholders of a path, the two passes come to the same in
all clean data, whether loops over unbound keys are kept or dropped. -/
theorem loops_conditionals_comm {template : String} {nodes : List Node} (missing : MissingBlocks)
    (htemplate : Template.isClean template = true) (hnodes : Node.ofSource template = .ok nodes)
    (hapart : Node.areApart nodes = true)
    (hbodies : ∀ l ∈ Node.loopBodiesOfAll nodes, (Node.pathsOfAll l.2).Nodup)
    (hdata : Value.areCleanFields data = true) :
    Expansion.conditionals data (Expansion.loops data missing template.toList) =
      Expansion.loops data missing (Expansion.conditionals data template.toList) := by
  have hlegible := Template.legible_of_isClean htemplate
  have hps := stock_pieces template.toList
  obtain ⟨hloop, hlooped⟩ := hlegible.loops_join hdata missing hps
  obtain ⟨hif, hiffed⟩ := hlegible.conditionals_join data hps
  rw [toList_eq_join template, hloop, hif, (hlegible.conditionals_join data hlooped).1,
    (hlegible.loops_join hdata missing hiffed).1,
    loops_conditionals_comm_of_spell (spells_pieces hnodes)
      (resolvable_of_areApart hapart fun _ _ => trivial) hbodies]

/-- A branch that is dropped after the rows are filled takes their only field with it. -/
example : Expansion.conditionals [("x", .string "1")] (Expansion.loops [("x", .string "1")] .remove
      ("\x7b\x7b#each x\x7d\x7d\x7b\x7b#if f\x7d\x7d\x7b\x7bx\x7d\x7d\x7b\x7b#else\x7d\x7d" ++
        "\x7b\x7bx\x7d\x7d\x7b\x7b/if\x7d\x7d\x7b\x7b/each\x7d\x7d").toList) =
    "\x7b\x7bx\x7d\x7d".toList := by decide +kernel

/-- A conditional in a loop with two rows, and a loop that is kept in a conditional. -/
theorem loops_conditionals_comm_of_rows :
    Expansion.conditionals [("f", .bool true), ("xs", .sequence [.string "1", .string "2"])]
        (Expansion.loops [("f", .bool true), ("xs", .sequence [.string "1", .string "2"])] .preserve
          ("\x7b\x7b#each xs\x7d\x7d\x7b\x7b#if f\x7d\x7d\x7b\x7bxs\x7d\x7d\x7b\x7b/if\x7d\x7d\x7b\x7b/each\x7d\x7d" ++
            "\x7b\x7b#if f\x7d\x7d\x7b\x7b#each y\x7d\x7d-\x7b\x7b/each\x7d\x7d\x7b\x7b/if\x7d\x7d").toList) =
      Expansion.loops [("f", .bool true), ("xs", .sequence [.string "1", .string "2"])] .preserve
        (Expansion.conditionals [("f", .bool true), ("xs", .sequence [.string "1", .string "2"])]
          ("\x7b\x7b#each xs\x7d\x7d\x7b\x7b#if f\x7d\x7d\x7b\x7bxs\x7d\x7d\x7b\x7b/if\x7d\x7d\x7b\x7b/each\x7d\x7d" ++
            "\x7b\x7b#if f\x7d\x7d\x7b\x7b#each y\x7d\x7d-\x7b\x7b/each\x7d\x7d\x7b\x7b/if\x7d\x7d").toList) := by
  generalize htemplate :
    ("\x7b\x7b#each xs\x7d\x7d\x7b\x7b#if f\x7d\x7d\x7b\x7bxs\x7d\x7d\x7b\x7b/if\x7d\x7d\x7b\x7b/each\x7d\x7d" ++
      "\x7b\x7b#if f\x7d\x7d\x7b\x7b#each y\x7d\x7d-\x7b\x7b/each\x7d\x7d\x7b\x7b/if\x7d\x7d") = template
  have htokens : Token.ofSource template = [⟨.tag (.eachOpen "xs"), 0, 12⟩,
      ⟨.tag (.ifOpen ⟨"f", none⟩), 12, 21⟩, ⟨.tag (.placeholder "xs"), 21, 27⟩,
      ⟨.tag .ifClose, 27, 34⟩, ⟨.tag .eachClose, 34, 43⟩, ⟨.tag (.ifOpen ⟨"f", none⟩), 43, 52⟩,
      ⟨.tag (.eachOpen "y"), 52, 63⟩, ⟨.plain "-", 63, 64⟩, ⟨.tag .eachClose, 64, 73⟩,
      ⟨.tag .ifClose, 73, 80⟩] := by
    subst htemplate
    decide +kernel
  have hnodes : Node.ofSource template =
      .ok [.loop "xs" 0 [.conditional ⟨"f", none⟩ 12 [.placeholder "xs"] none],
        .conditional ⟨"f", none⟩ 43 [.loop "y" 52 [.plain "-"]] none] := by
    rw [ofSource_eq_ok, htokens]
    rfl
  refine loops_conditionals_comm .preserve ?_ hnodes (by decide) (by decide) (by decide)
  subst htemplate
  decide +kernel

end Stencil
