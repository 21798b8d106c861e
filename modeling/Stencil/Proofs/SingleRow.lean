import Stencil.Proofs.Agreement
import Stencil.Proofs.Commuting
import Stencil.Proofs.Dependence

/-!
# Loops over a single row

A value that is no sequence is the one row of a loop over it, so that a template should be rendered alike
whether a key is bound to such a value or to a sequence of it alone. A mapping keeps to that. A scalar
does not: before the loops are expanded it fills the first placeholder of its key, wherever that stands,
and the row fills another one. The first placeholder is filled as if it had not been there, and so two
placeholders in one body are filled where a sequence fills one.

* `Node.pathsOutside`, `Node.firstLoop?`: where in a tree the placeholders of a key stand.
* `fillAll_single_row`, `loops_single_row`: what the passes make of the two ways to bind a key.
* `InFirstLoop`: the first placeholder of a key is in a loop over it.
* `render_single_row`: when a scalar or a mapping is rendered as a sequence of it, and what a scalar is
  rendered as otherwise.
* `scalar_fills_twice`: a scalar in two placeholders of one body.
-/

namespace Stencil

open Text Tag Pieces

namespace Node

mutual

/-- The paths of the placeholders in a node that stand in no loop over the key. -/
def pathsOutside (key : String) : Node → List String
  | plain _ => []
  | placeholder path => [path]
  | loop key' _ body => if key' = key then [] else pathsOutsideOfAll key body
  | conditional _ _ whenTrue whenFalse =>
    pathsOutsideOfAll key whenTrue ++ pathsOutsideOfBranch key whenFalse

/-- The paths in several nodes, those inside loops over the key apart. -/
def pathsOutsideOfAll (key : String) : List Node → List String
  | [] => []
  | n :: ns => n.pathsOutside key ++ pathsOutsideOfAll key ns

/-- The paths in a branch that may be absent, those inside loops over the key apart. -/
def pathsOutsideOfBranch (key : String) : Option (List Node) → List String
  | none => []
  | some ns => pathsOutsideOfAll key ns

end

/-- The keys of all conditions. -/
def conditionKeys (nodes : List Node) : List String :=
  (sitesOfAll [] nodes).filterMap Site.conditionKey?

/-- The first of some loops that has a placeholder of the path in its body. -/
def firstReader? (path : String) (loops : List (String × List Node)) : Option (String × List Node) :=
  loops.find? fun l => (pathsOfAll l.2).contains path

/-- The first loop that has a placeholder of the path in its body. -/
def firstLoop? (path : String) (nodes : List Node) : Option (String × List Node) :=
  firstReader? path (loopBodiesOfAll nodes)

end Node

variable {ps a b inner : Pieces} {x y : Piece Tag} {nodes : List Node} {key path : String}
  {text : List Char} {value : Value} {m data : Mapping} {missing : MissingBlocks}
  {bound : String → Prop} {inLoop inConditional : Bool} {fills : List (String × String)}

/-! ### The two ways to bind a key -/

/-- The scalar of a path once an entry has been put in. -/
theorem scalar?_insert (path key : String) (value : Value) (m : Mapping) :
    scalar? path (m.insert key value) =
      if path = key then (some value).filter Value.isScalar else scalar? path m := by
  rw [scalar?, Fields.get?_insert]
  split <;> rfl

/-- What is offered to a path once an entry has been put in. -/
theorem offers_insert (hm : Fields.Sorted m) (path key : String) (value : Value) :
    offers (scalars (m.insert key value)) path = if path = key then
      (((some value).filter Value.isScalar).map Value.display).toList else offers (scalars m) path := by
  rw [offers_scalars (Fields.sorted_insert hm key value), offers_scalars hm, scalar?_insert]
  split <;> rfl

/-- One mapping is filled in by its scalars. -/
theorem fillAll_single (ps : Pieces) (m : Mapping) : fillAll ps (.single m) = puts (scalars m) ps := by
  rw [fillAll_eq_puts]
  exact congrArg (puts · ps) (List.append_nil (scalars m))

/-- **A scalar fills the first placeholder of its key**, and a sequence none. Whether this is done before
or after the other keys makes no difference. -/
theorem fillAll_single_row (hm : Fields.Sorted m) (key : String) (value : Value) (ps : Pieces) :
    (value.isScalar = false → fillAll ps (.single (m.insert key value)) =
      fillAll ps (.single (m.insert key (.sequence [value])))) ∧
    (value.isScalar = true → fillAll ps (.single (m.insert key value)) =
        put key value.display.toList (fillAll ps (.single (m.insert key (.sequence [value])))) ∧
      fillAll ps (.single (m.insert key value)) =
        fillAll (put key value.display.toList ps) (.single (m.insert key (.sequence [value])))) := by
  have hsequence : ∀ path, offers (scalars (m.insert key (.sequence [value]))) path =
      if path = key then [] else offers (scalars m) path := fun path => offers_insert hm path key _
  simp only [fillAll_single]
  constructor
  · intro hscalar
    refine puts_congr fun path _ => ?_
    rw [hsequence, offers_insert hm, Option.filter_some_neg (by simp [hscalar])]
    rfl
  · intro hscalar
    have hoffers : ∀ path, offers (scalars (m.insert key value)) path =
        if path = key then [value.display] else offers (scalars m) path := by
      intro path
      rw [offers_insert hm, Option.filter_some_pos hscalar]
      rfl
    constructor
    · -- no other offer is made to the key, so that this one may come last
      have hlast : puts (scalars (m.insert key value)) ps =
          puts (scalars (m.insert key (.sequence [value])) ++ [(key, value.display)]) ps := by
        refine puts_congr fun path _ => ?_
        rw [hoffers, offers_append, hsequence, offers_cons]
        by_cases hpath : path = key
        · rw [if_pos hpath, if_pos hpath, if_pos hpath.symm]
          rfl
        · rw [if_neg hpath, if_neg hpath, if_neg (Ne.symm hpath)]
          exact (List.append_nil _).symm
      rw [hlast, puts, List.foldl_append]
      rfl
    · -- or first
      have hfirst : puts (scalars (m.insert key value)) ps =
          puts ((key, value.display) :: scalars (m.insert key (.sequence [value]))) ps := by
        refine puts_congr fun path _ => ?_
        rw [hoffers, offers_cons, hsequence]
        by_cases hpath : path = key
        · rw [if_pos hpath, if_pos hpath.symm, if_pos hpath]
        · rw [if_neg hpath, if_neg (Ne.symm hpath), if_neg hpath]
      exact hfirst

/-- **Loops have the same rows** either way. -/
theorem loops_single_row (hvalue : value.rows = [value]) (m : Mapping) (missing : MissingBlocks)
    (ps : Pieces) : loops (m.insert key value) missing ps =
      loops (m.insert key (.sequence [value])) missing ps := by
  refine expand_congr fun q _ key' _ => ?_
  funext body
  unfold rows?
  rw [Fields.get?_insert, Fields.get?_insert]
  by_cases hkey : key' = key
  · rw [if_pos hkey, if_pos hkey]
    dsimp only
    rw [hvalue, Value.rows_of_sequence]
  · rw [if_neg hkey, if_neg hkey]

/-- The piece opens no conditional on the key. -/
def NoCondition (key : String) (p : Piece Tag) : Prop := ∀ c, p.tag? = some (.ifOpen c) → c.key ≠ key

/-- Where the tree has no condition on the key, neither have the pieces. -/
theorem noCondition_of_spell (h : Spell ps nodes) (hkey : key ∉ Node.conditionKeys nodes) :
    ∀ q ∈ ps, NoCondition key q := by
  intro q hq c htag hc
  obtain ⟨site, hsite, he⟩ := List.mem_map.1 (isAmong_of_spell h [] q hq _ htag rfl)
  refine hkey (List.mem_filterMap.2 ⟨site, hsite, ?_⟩)
  cases site <;> cases he
  exact congrArg some hc

/-- Conditions on other keys hold either way. -/
theorem conditionals_single_row (h : ∀ q ∈ ps, NoCondition key q) (m : Mapping) (value value' : Value) :
    conditionals (m.insert key value) ps = conditionals (m.insert key value') ps := by
  refine expand_congr fun q hq c hopen => ?_
  obtain ⟨lexeme, rfl⟩ := exists_of_opened? hopen
  have hkey : c.key ≠ key := h _ hq c rfl
  funext body
  rw [Condition.holds, Condition.holds, Fields.get?_insert, Fields.get?_insert, if_neg hkey, if_neg hkey]

/-! ### The first placeholder of a key -/

/-- **The first placeholder of a key is in a loop over it**, and `inner` is the body of the loop. -/
structure InFirstLoop (key : String) (ps inner : Pieces) : Prop where
  cut : ∃ a x y b, ps = a ++ x :: (inner ++ y :: b) ∧ x.lexeme = .tag (.eachOpen key) ∧
    y.lexeme = .tag .eachClose ∧ Contained .loop a ∧ ¬ Reads a key
  free : ∀ q ∈ inner, q.tag? ≠ some .eachClose
  reads : Reads inner key

/-- A path is read by the first pieces or by the last ones. -/
theorem reads_append : Reads (a ++ b) path ↔ Reads a path ∨ Reads b path := by
  simp [Reads, List.mem_append, or_and_right, exists_or]

theorem reads_cons_of_ne (h : x.tag? ≠ some (.placeholder path)) :
    Reads (x :: ps) path ↔ Reads ps path := by
  simp [Reads, h]

namespace InFirstLoop

/-- The first loop stays the first one behind pieces that do not read the key. -/
theorem behind (h : InFirstLoop key ps inner) (ha : Contained .loop a) (hreads : ¬ Reads a key) :
    InFirstLoop key (a ++ ps) inner := by
  obtain ⟨⟨a', x, y, b, rfl, hx, hy, ha', hreads'⟩, hfree, hinner⟩ := h
  refine ⟨⟨a ++ a', x, y, b, by simp, hx, hy, ha.append ha', ?_⟩, hfree, hinner⟩
  rw [reads_append, not_or]
  exact ⟨hreads, hreads'⟩

/-- The first loop stays the first one, whatever stands behind it. -/
theorem before (h : InFirstLoop key ps inner) (b : Pieces) : InFirstLoop key (ps ++ b) inner := by
  obtain ⟨⟨a, x, y, b', rfl, hx, hy, ha, hreads⟩, hfree, hinner⟩ := h
  exact ⟨⟨a, x, y, b' ++ b, by simp, hx, hy, ha, hreads⟩, hfree, hinner⟩

theorem cons (h : InFirstLoop key ps inner) (hloop : BlockKind.loop.opened? x = none)
    (hx : x.tag? ≠ some (.placeholder key)) : InFirstLoop key (x :: ps) inner := by
  refine h.behind (a := [x]) ⟨fun hopen => absurd hloop hopen, trivial⟩ ?_
  rintro ⟨q, hq, htag⟩
  exact hx (List.mem_singleton.1 hq ▸ htag)

end InFirstLoop

/-- The pieces read the paths of the tree. -/
theorem reads_iff_of_spell (h : Spell ps nodes) (path : String) :
    Reads ps path ↔ path ∈ Node.pathsOfAll nodes := by
  rw [← List.count_pos_iff, ← uses_of_spell h, Nat.pos_iff_ne_zero, Ne, uses_eq_zero, not_not]

/-- What is read in a loop is read in the tree. -/
theorem mem_paths_of_loopBodies {l : String × List Node} (h : l ∈ Node.loopBodiesOfAll nodes)
    (hpath : path ∈ Node.pathsOfAll l.2) : path ∈ Node.pathsOfAll nodes := by
  induction nodes using Node.forest_induction with
  | nil => cases h
  | plain text ns ih => exact ih h
  | placeholder path' ns ih => exact List.mem_cons_of_mem path' (ih h)
  | loop key offset body ns ihbody ih =>
    rw [Node.pathsOfAll, Node.paths, List.mem_append]
    rw [Node.loopBodiesOfAll, Node.loopBodies, List.cons_append, List.mem_cons, List.mem_append] at h
    rcases h with rfl | h | h
    · exact .inl hpath
    · exact .inl (ihbody h)
    · exact .inr (ih h)
  | single c offset branch ns ihbranch ih =>
    rw [Node.pathsOfAll, Node.paths, Node.pathsOfBranch, List.append_nil, List.mem_append]
    rw [Node.loopBodiesOfAll, Node.loopBodies, Node.loopBodiesOfBranch, List.append_nil,
      List.mem_append] at h
    exact h.imp ihbranch ih
  | double c offset whenTrue whenFalse ns ihtrue ihfalse ih =>
    rw [Node.pathsOfAll, Node.paths, Node.pathsOfBranch, List.mem_append, List.mem_append]
    rw [Node.loopBodiesOfAll, Node.loopBodies, Node.loopBodiesOfBranch, List.mem_append,
      List.mem_append] at h
    exact h.imp (Or.imp ihtrue ihfalse) ih

/-- No loop reads a path that nothing reads. -/
theorem firstLoop?_eq_none (h : Spell ps nodes) (hreads : ¬ Reads ps path) :
    Node.firstLoop? path nodes = none := by
  refine List.find?_eq_none.2 fun l hl hpath => hreads ((reads_iff_of_spell h path).2 ?_)
  exact mem_paths_of_loopBodies hl (List.contains_iff_mem.1 hpath)

/-- The first reader is in the first loops, or else in the last ones. -/
theorem firstReader?_append (path : String) (ls ls' : List (String × List Node)) :
    Node.firstReader? path (ls ++ ls') =
      (Node.firstReader? path ls).or (Node.firstReader? path ls') := List.find?_append

/-- The first placeholder of the key is in a loop over it, which is the first of the loops that reads
the key. -/
def FirstRead (key : String) (loops : List (String × List Node)) (ps : Pieces) : Prop :=
  ∃ body inner, Node.firstReader? key loops = some (key, body) ∧ Spell inner body ∧
    InFirstLoop key ps inner

namespace FirstRead

variable {ls ls' : List (String × List Node)}

theorem before (h : FirstRead key ls ps) (ls' : List (String × List Node)) (b : Pieces) :
    FirstRead key (ls ++ ls') (ps ++ b) := by
  obtain ⟨body, inner, hfirst, hbody, hin⟩ := h
  exact ⟨body, inner, by rw [firstReader?_append, hfirst, Option.some_or], hbody, hin.before b⟩

theorem cons (h : FirstRead key ls ps) (hloop : BlockKind.loop.opened? x = none)
    (hx : x.tag? ≠ some (.placeholder key)) : FirstRead key ls (x :: ps) := by
  obtain ⟨body, inner, hfirst, hbody, hin⟩ := h
  exact ⟨body, inner, hfirst, hbody, hin.cons hloop hx⟩

/-- The first placeholder is in the first pieces, or it is in the pieces behind them. -/
theorem append (ha : Spell a nodes)
    (hfront : Reads a key → FirstRead key (Node.loopBodiesOfAll nodes) a)
    (hback : Reads b key → FirstRead key ls b) (hreads : Reads (a ++ b) key) :
    FirstRead key (Node.loopBodiesOfAll nodes ++ ls) (a ++ b) := by
  by_cases hfirst : Reads a key
  · exact (hfront hfirst).before ls b
  · obtain ⟨body, inner, hbody, hspell, hin⟩ := hback ((reads_append.1 hreads).resolve_left hfirst)
    have hnone : Node.firstReader? key (Node.loopBodiesOfAll nodes) = none :=
      firstLoop?_eq_none ha hfirst
    exact ⟨body, inner, by rw [firstReader?_append, hnone, Option.none_or, hbody], hspell,
      hin.behind (contained_loop ha) hfirst⟩

/-- A block is read in front of what is behind it. -/
theorem block {n : Node} {ns : List Node} (ha : Spell a [n])
    (hfront : Reads a key → FirstRead key n.loopBodies a)
    (hback : Reads b key → FirstRead key (Node.loopBodiesOfAll ns) b) (hreads : Reads (a ++ b) key) :
    FirstRead key (Node.loopBodiesOfAll (n :: ns)) (a ++ b) := by
  have hone : Node.loopBodiesOfAll [n] = n.loopBodies := List.append_nil _
  rw [Node.loopBodiesOfAll, ← hone]
  exact append ha (hone ▸ hfront) hback hreads

end FirstRead

/-- What is read in a block is read between its tags. -/
theorem reads_of_block {tag tag' : Tag} (hx : x.lexeme = .tag tag) (hy : y.lexeme = .tag tag')
    (hne : ∀ path, tag ≠ .placeholder path) (hne' : ∀ path, tag' ≠ .placeholder path)
    (h : Reads (x :: (inner ++ [y])) path) : Reads inner path := by
  rcases reads_append.1 ((reads_cons_of_ne (tag?_ne_placeholder hx hne path)).1 h) with hin | hlast
  · exact hin
  · exact absurd hlast (not_reads_singleton (tag?_ne_placeholder hy hne') path)

/-- **Where a key is read in loops over it only**, its first placeholder is in the first of them that
reads it. -/
theorem firstRead_of_spell (h : Spell ps nodes) (hnodes : Resolvable bound inLoop inConditional nodes)
    (hkey : key ∉ Node.pathsOutsideOfAll key nodes) (hreads : Reads ps key) :
    FirstRead key (Node.loopBodiesOfAll nodes) ps := by
  -- the first piece that reads the key is in the first node, or else behind it
  induction h generalizing inLoop inConditional with
  | nil => simp [Reads] at hreads
  | @plain x xs text nodes hx _ ih =>
    cases hnodes with
    | plain hnodes =>
      have hne : x.tag? ≠ some (.placeholder key) := by simp [tag?_of_lexeme_plain hx]
      exact (ih hnodes hkey ((reads_cons_of_ne hne).1 hreads)).cons (opened?_of_lexeme_plain _ hx) hne
  | @placeholder x xs path nodes hx _ ih =>
    rw [Node.pathsOutsideOfAll, Node.pathsOutside, List.singleton_append, List.mem_cons, not_or] at hkey
    cases hnodes with
    | placeholder hnodes =>
      have hne : x.tag? ≠ some (.placeholder key) :=
        tag?_ne_of_lexeme hx fun he => hkey.1 (Tag.placeholder.inj he).symm
      exact (ih hnodes hkey.2 ((reads_cons_of_ne hne).1 hreads)).cons (opened?_of_lexeme _ hx) hne
  | @loop x y inner xs key' offset body nodes hx hs hbody hy _ ihbody ih =>
    rw [Node.pathsOutsideOfAll, Node.pathsOutside, List.mem_append, not_or] at hkey
    cases hnodes with
    | loop _ hbody' hnodes =>
      have hfits := fits_of_spell hbody hbody'
      have hsplit : x :: (inner ++ y :: xs) = (x :: (inner ++ [y])) ++ xs := by simp
      rw [hsplit] at hreads ⊢
      refine .block (.loop hx hs hbody hy .nil) (fun hin => ?_) (ih hnodes hkey.2) hreads
      have hin := reads_of_block hx hy (by simp) (by simp) hin
      by_cases hsame : key' = key
      · subst hsame
        have hmem := List.contains_iff_mem.2 ((reads_iff_of_spell hbody key').1 hin)
        refine ⟨body, inner, List.find?_cons_of_pos hmem, hbody, ?_, ?_, hin⟩
        · exact ⟨[], x, y, [], rfl, hx, hy, trivial, by simp [Reads]⟩
        · exact fun q hq => (hfits q hq).ne rfl
      · -- no loop over the key is in the body, as no loop is
        obtain ⟨body', inner', -, -, ⟨a, x', y', b, rfl, hx', -⟩, -, -⟩ :=
          ihbody hbody' (by rw [if_neg hsame] at hkey; exact hkey.1) hin
        have hopen : x'.tag? ≠ some (.eachOpen key) :=
          (hfits x' (List.mem_append_right a List.mem_cons_self)).ne rfl
        exact absurd (tag?_of_lexeme hx') hopen
  | @single x y inner xs c offset branch nodes hx hs hbranch hy _ ihbranch ih =>
    rw [Node.pathsOutsideOfAll, Node.pathsOutside, Node.pathsOutsideOfBranch, List.append_nil,
      List.mem_append, not_or] at hkey
    cases hnodes with
    | single hbranch' hnodes =>
      have hsplit : x :: (inner ++ y :: xs) = (x :: (inner ++ [y])) ++ xs := by simp
      rw [hsplit] at hreads ⊢
      refine .block (.single hx hs hbranch hy .nil) (fun hin => ?_) (ih hnodes hkey.2) hreads
      have hin := ihbranch hbranch' hkey.1 (reads_of_block hx hy (by simp) (by simp) hin)
      exact (hin.before _ [y]).cons (opened?_of_lexeme _ hx) (tag?_ne_placeholder hx (by simp) key)
  | @double x y z inner inner' xs c offset whenTrue whenFalse nodes hx hs htrue hy hfalse hz _ ihtrue
      ihfalse ih =>
    rw [Node.pathsOutsideOfAll, Node.pathsOutside, Node.pathsOutsideOfBranch, List.mem_append,
      List.mem_append, not_or, not_or] at hkey
    cases hnodes with
    | double htrue' hfalse' hnodes =>
      have hsplit : x :: (inner ++ y :: (inner' ++ z :: xs)) =
          (x :: (inner ++ y :: (inner' ++ [z]))) ++ xs := by simp
      rw [hsplit] at hreads ⊢
      refine .block (.double hx hs htrue hy hfalse hz .nil) (fun hin => ?_) (ih hnodes hkey.2) hreads
      have hin := (reads_cons_of_ne (tag?_ne_placeholder hx (by simp) key)).1 hin
      refine FirstRead.cons (FirstRead.append htrue (ihtrue htrue' hkey.1.1) (fun hin' => ?_) hin)
        (opened?_of_lexeme _ hx) (tag?_ne_placeholder hx (by simp) key)
      have hin' := ihfalse hfalse' hkey.1.2 (reads_of_block hy hz (by simp) (by simp) hin')
      have hlast := (hin'.before [] [z]).cons (opened?_of_lexeme _ hy) (tag?_ne_placeholder hy (by simp) key)
      rwa [List.append_nil] at hlast

/-! ### Filled pieces -/

/-- Putting a text in place of a placeholder leaves the others. -/
theorem uses_put_of_ne {path' : String} (h : path' ≠ path) (ps : Pieces) :
    uses path (put path' text ps) = uses path ps := by
  unfold put put?
  cases hcut : cutAt? (.placeholder path') ps with
  | none => rfl
  | some y =>
    obtain ⟨a, p, b⟩ := y
    obtain ⟨rfl, hp, -⟩ := cutAt?_eq_some hcut
    have hother : p.tag? ≠ some (.placeholder path) := by
      rw [hp]
      exact fun he => h (Tag.placeholder.inj (Option.some.inj he))
    have hplain : (Piece.plain text : Piece Tag).tag? ≠ some (.placeholder path) := nofun
    rw [Option.map_some, Option.getD_some, uses_append, uses_append, uses_of_ne hplain, uses_of_ne hother]

/-- Where nothing is offered to a path, its placeholders stay. -/
theorem uses_puts (h : offers fills path = []) (ps : Pieces) :
    uses path (puts fills ps) = uses path ps := by
  induction fills generalizing ps with
  | nil => rfl
  | cons fill fills ih =>
    rw [offers_cons] at h
    by_cases hpath : fill.1 = path
    · rw [if_pos hpath] at h
      cases h
    · rw [if_neg hpath] at h
      rw [puts, List.foldl_cons]
      exact (ih h _).trans (uses_put_of_ne hpath ps)

/-- A path without an offer is read as before. -/
theorem reads_puts (h : offers fills path = []) : Reads (puts fills ps) path ↔ Reads ps path := by
  rw [← not_iff_not, ← uses_eq_zero, ← uses_eq_zero, uses_puts h]

/-- The first placeholder stays in the first loop when other paths are filled. -/
theorem InFirstLoop.puts (h : InFirstLoop key ps inner) (hoffers : offers fills key = []) :
    ∃ inner', InFirstLoop key (puts fills ps) inner' ∧ uses key inner' = uses key inner := by
  obtain ⟨⟨a, x, y, b, rfl, hx, hy, ha, hreads⟩, hfree, hinner⟩ := h
  obtain ⟨left, hputs, hleft⟩ := puts_append_drop fills a (x :: (inner ++ y :: b))
  obtain ⟨behind, hbody, -⟩ := puts_append_drop left inner (y :: b)
  have hleft : offers left key = [] := by rw [hleft, hoffers, List.drop_nil]
  refine ⟨Pieces.puts left inner, ⟨?_, ?_, (reads_puts hleft).2 hinner⟩, uses_puts hleft inner⟩
  · refine ⟨Pieces.puts fills a, x, y, Pieces.puts behind b, ?_, hx, hy, ?_, mt (reads_puts hoffers).1 hreads⟩
    · rw [hputs, puts_cons (tag?_ne_placeholder hx nofun), hbody, puts_cons (tag?_ne_placeholder hy nofun)]
    · exact puts_keeps (contained_of_filled loop_closing_ne) fills ha
  · exact forall_mem_puts nofun hfree

/-! ### One row -/

/-- A placeholder that is there only once is filled only once. -/
theorem put_put_of_uses (h : uses path ps ≤ 1) : put path text (put path text ps) = put path text ps := by
  refine put_of_not_reads ?_
  rw [put_eq_map h]
  rintro ⟨q, hq, htag⟩
  obtain ⟨p, -, rfl⟩ := List.mem_map.1 hq
  unfold fillPiece at htag
  split at htag
  · cases htag
  · next hp => exact hp htag

/-- **A scalar goes into the row of the first loop twice**, where a sequence of it goes there once. -/
theorem InFirstLoop.loops (h : InFirstLoop key ps inner) (hscalar : value.isScalar = true)
    (hdata : data.get? key = some (.sequence [value])) (missing : MissingBlocks) : ∃ front back,
      loops data missing ps = front ++ (put key value.display.toList inner ++ back) ∧
      loops data missing (put key value.display.toList ps) =
        front ++ (put key value.display.toList (put key value.display.toList inner) ++ back) := by
  obtain ⟨⟨a, x, y, b, rfl, hx, hy, ha, hreads⟩, hfree, hinner⟩ := h
  -- nothing in front of the loop reads the key, so that the text goes into the body
  have hput : put key value.display.toList (a ++ x :: (inner ++ y :: b)) =
      a ++ x :: (put key value.display.toList inner ++ y :: b) := by
    have hx' : ¬ Reads (a ++ [x]) key := by
      rw [reads_append, not_or]
      exact ⟨hreads, not_reads_singleton (tag?_ne_placeholder hx nofun) key⟩
    have hfront : put key value.display.toList ((a ++ [x]) ++ (inner ++ y :: b)) =
        (a ++ [x]) ++ (put key value.display.toList inner ++ y :: b) := by
      rw [put_append_of_not_reads hx', put_append_of_reads hinner]
    simpa using hfront
  -- the only row is put into the body, whatever that is by then
  have hrow : ∀ body, (∀ q ∈ body, q.tag? ≠ some .eachClose) → Pieces.loops data missing
      (a ++ x :: (body ++ y :: b)) = Pieces.loops data missing a ++
        (put key value.display.toList body ++ Pieces.loops data missing b) := by
    intro body hbody
    have hrows : rows? data missing key body = some (put key value.display.toList body) := by
      unfold rows?
      rw [hdata]
      refine congrArg some ?_
      rw [Value.rows_of_sequence, List.flatMap_singleton]
      cases value with
      | sequence items => cases hscalar
      | mapping fields => cases hscalar
      | _ => rfl
    rw [loops_append ha, loops_eachOpen hx hy hbody, hrows, Option.getD_some]
  exact ⟨_, _, hrow inner hfree, hput ▸ hrow _ (forall_mem_put hfree nofun)⟩

/-! ### The last pass -/

/-- The piece, or no text if it is a placeholder. -/
def clearPiece (p : Piece Tag) : Piece Tag := if isPlaceholder p then .plain [] else p

/-- Clearing a placeholder changes no other tag. -/
theorem keepsTags_clearPiece : KeepsTags clearPiece := by
  intro tag htag p
  unfold clearPiece isPlaceholder
  cases hp : p.tag? with
  | none => simp [hp]
  | some tag' =>
    cases tag' with
    | placeholder path => simpa [Piece.tag?] using (htag path).symm
    | _ => simp [hp]

/-- Clearing placeholders is the same as putting nothing in place of them. -/
theorem join_clear (ps : Pieces) : join (clear ps) = join (ps.map clearPiece) := by
  induction ps with
  | nil => rfl
  | cons p ps ih =>
    rw [clear, List.filter_cons, List.map_cons, join_cons, ← ih, clearPiece]
    cases isPlaceholder p <;> simp [clear, Piece.text]

/-- A fill without a text comes to the same as none, once all placeholders have been cleared. -/
theorem map_clearPiece_put (path : String) (ps : Pieces) :
    (put path [] ps).map clearPiece = ps.map clearPiece := by
  unfold put put?
  cases hcut : cutAt? (.placeholder path) ps with
  | none => rfl
  | some y =>
    obtain ⟨a, p, b⟩ := y
    obtain ⟨rfl, hp, -⟩ := cutAt?_eq_some hcut
    have hclear : clearPiece p = .plain [] := if_pos (by rw [isPlaceholder, hp])
    have hplain : clearPiece (.plain []) = .plain [] := rfl
    simp [hclear, hplain]

/-- What is cleared does not matter for the conditionals. -/
theorem join_clear_conditionals (h : a.map clearPiece = b.map clearPiece) :
    join (clear (conditionals data a)) = join (clear (conditionals data b)) := by
  rw [join_clear, join_clear, ← conditionals_map keepsTags_clearPiece,
    ← conditionals_map keepsTags_clearPiece, h]

/-! ### Whole renderings -/

/-- Anything but a sequence is a row by itself. -/
theorem rows_of_not_sequence (h : ∀ items, value ≠ .sequence items) : value.rows = [value] := by
  cases value with
  | sequence items => exact absurd rfl (h items)
  | _ => rfl

/-- Clean data stay clean with a clean value under a path. -/
theorem isClean_insert (hm : Value.areCleanFields m = true) (hkey : isPath key.toList = true)
    (hvalue : value.isClean = true) : (Context.single (m.insert key value)).isClean = true := by
  refine List.all_eq_true.2 (List.forall_mem_singleton.2 (Value.areCleanFields_iff.2 fun entry he => ?_))
  rcases Fields.mem_insert he with rfl | he
  · exact ⟨hkey, hvalue⟩
  · exact Value.areCleanFields_iff.1 hm entry he

/-- The blocks are expanded alike either way, as no pass brings a condition on the key. -/
theorem expanded_single_row (hspell : Spell ps nodes) (hconditions : key ∉ Node.conditionKeys nodes)
    (hvalue : value.rows = [value]) (missing : MissingBlocks) (m : Mapping) :
    Pieces.expanded missing (.single (m.insert key value)) ps =
      conditionals (m.insert key (.sequence [value])) (loops (m.insert key (.sequence [value])) missing
        (fillAll ps (.single (m.insert key value)))) := by
  have hfilled : ∀ q ∈ fillAll ps (.single (m.insert key value)), NoCondition key q := by
    rw [fillAll_eq_puts]
    exact forall_mem_puts nofun (noCondition_of_spell hspell hconditions)
  unfold Pieces.expanded
  rw [Context.merged_single, loops_single_row hvalue]
  exact conditionals_single_row (forall_mem_loops nofun hfilled) m _ _

/-- A scalar that fills the first placeholder of its key before the rows are filled leaves no trace, where
the first loop that reads the key does so once, or the scalar is written without a text. -/
theorem join_clear_single_row (hspell : Spell ps nodes) (hapart : Node.areApart nodes = true)
    (houtside : key ∉ Node.pathsOutsideOfAll key nodes) (hm : Fields.Sorted m)
    (hscalar : value.isScalar = true) (missing : MissingBlocks)
    (hfirst : (∀ l ∈ Node.firstLoop? key nodes, (Node.pathsOfAll l.2).count key ≤ 1) ∨
      value.display = "") (hdata : data = m.insert key (.sequence [value])) :
    join (clear (conditionals data (loops data missing
        (put key value.display.toList (fillAll ps (.single data)))))) =
      join (clear (conditionals data (loops data missing (fillAll ps (.single data))))) := by
  have hoffers : offers (Context.single data).fills key = [] := by
    have hfills : (Context.single data).fills = scalars data := List.append_nil _
    rw [hfills, hdata, offers_insert hm, if_pos rfl]
    rfl
  have hget : data.get? key = some (.sequence [value]) := by
    rw [hdata, Fields.get?_insert, if_pos rfl]
  rw [fillAll_eq_puts]
  by_cases hreads : Reads ps key
  · have hresolvable : Resolvable (fun _ => True) false false nodes :=
      resolvable_of_areApart hapart fun _ _ => trivial
    obtain ⟨body, inner, hloop, hbody, hin⟩ := firstRead_of_spell hspell hresolvable houtside hreads
    obtain ⟨inner', hin', huses⟩ := hin.puts hoffers
    obtain ⟨front, back, hone, htwo⟩ := hin'.loops hscalar hget missing
    rw [hone, htwo]
    apply join_clear_conditionals
    -- where the key is read once, the second text finds no place; where it is empty, it does not
    -- matter
    rcases hfirst with hcount | hempty
    · have honce : uses key inner' ≤ 1 := by
        rw [huses, uses_of_spell hbody]
        exact hcount _ hloop
      rw [put_put_of_uses honce]
    · rw [hempty, String.toList_empty, List.map_append, List.map_append, map_clearPiece_put,
        ← List.map_append, ← List.map_append]
  · rw [put_of_not_reads (mt (reads_puts hoffers).1 hreads)]

/-- **When a value is rendered as a loop over it alone.** A key with no condition on it is bound to a value
that is no sequence. If this is a mapping, it is rendered as the sequence of it. If it is a scalar, it
is rendered as if the first placeholder of the key in the template were its text and the key were bound
to the sequence; which makes no difference as long as all placeholders of the key are in loops over it
and the first loop that has any has one, or the scalar is written without a text. -/
theorem render_single_row {template : String} (missing : MissingBlocks)
    (htemplate : Template.isClean template = true) (hnodes : Node.ofSource template = .ok nodes)
    (hconditions : key ∉ Node.conditionKeys nodes) (hsorted : Fields.Sorted m)
    (hm : Value.areCleanFields m = true) (hkey : isPath key.toList = true)
    (hvalue : value.isClean = true) (hrow : ∀ items, value ≠ .sequence items) :
    (value.isScalar = false → render missing template (.single (m.insert key value)) =
      render missing template (.single (m.insert key (.sequence [value])))) ∧
    (value.isScalar = true → render missing template (.single (m.insert key value)) =
      render missing (.ofList (replaceFirst (braced key.toList) value.display.toList template.toList))
        (.single (m.insert key (.sequence [value])))) ∧
    (value.isScalar = true → Node.areApart nodes = true → key ∉ Node.pathsOutsideOfAll key nodes →
      (∀ l ∈ Node.firstLoop? key nodes, (Node.pathsOfAll l.2).count key ≤ 1) ∨ value.display = "" →
      render missing template (.single (m.insert key value)) =
        render missing template (.single (m.insert key (.sequence [value])))) := by
  have hlegible := Template.legible_of_isClean htemplate
  have hps := stock_pieces template.toList
  have hspell := spells_pieces hnodes
  have hitem : Value.isClean (.sequence [value]) = true := by
    rw [Value.isClean, Value.areCleanItems_iff]
    exact List.forall_mem_singleton.2 hvalue
  have hsequence := isClean_insert hm hkey hitem
  have hleft := render_eq_join hlegible hps (toList_eq_join template) missing
    (isClean_insert hm hkey hvalue)
  have hright := render_eq_join hlegible hps (toList_eq_join template) missing hsequence
  rw [expanded_single_row hspell hconditions (rows_of_not_sequence hrow)] at hleft
  obtain ⟨hsame, hfills⟩ := fillAll_single_row hsorted key value (recogniser.pieces template.toList)
  refine ⟨fun hscalar => ?_, fun hscalar => ?_, fun hscalar hapart houtside hfirst => ?_⟩
  · apply String.toList_inj.1
    rw [hleft, hright, hsame hscalar]
    rfl
  · have htext : (String.ofList (replaceFirst (braced key.toList) value.display.toList
        template.toList)).toList =
          join (put key value.display.toList (recogniser.pieces template.toList)) := by
      rw [String.toList_ofList, ← hlegible.put_join hkey hps, ← toList_eq_join template]
    have hput : ∀ q ∈ put key value.display.toList (recogniser.pieces template.toList),
        Stock (recogniser.pieces template.toList) q :=
      forall_mem_put hps (hlegible.plain (Value.braceless_display hvalue hscalar))
    apply String.toList_inj.1
    rw [hleft, (hfills hscalar).2, render_eq_join hlegible hput htext missing hsequence]
    rfl
  · apply String.toList_inj.1
    rw [hleft, hright, (hfills hscalar).1,
      join_clear_single_row hspell hapart houtside hsorted hscalar missing hfirst rfl]
    rfl

/-- A value in the one placeholder of a loop, and the field of a mapping in another. -/
theorem render_single_row_of_loop :
    render .preserve "\x7b\x7b#each k\x7d\x7d\x7b\x7bk\x7d\x7d\x7b\x7bk.f\x7d\x7d\x7b\x7b/each\x7d\x7d"
        (.single [("k", .mapping [("f", .string "1")])]) =
      render .preserve "\x7b\x7b#each k\x7d\x7d\x7b\x7bk\x7d\x7d\x7b\x7bk.f\x7d\x7d\x7b\x7b/each\x7d\x7d"
        (.single [("k", .sequence [.mapping [("f", .string "1")]])]) ∧
    render .preserve "\x7b\x7b#each k\x7d\x7d\x7b\x7bk\x7d\x7d\x7b\x7bk.f\x7d\x7d\x7b\x7b/each\x7d\x7d"
        (.single [("k", .string "a")]) =
      render .preserve "\x7b\x7b#each k\x7d\x7da\x7b\x7bk.f\x7d\x7d\x7b\x7b/each\x7d\x7d"
        (.single [("k", .sequence [.string "a"])]) ∧
    render .preserve "\x7b\x7b#each k\x7d\x7d\x7b\x7bk\x7d\x7d\x7b\x7bk.f\x7d\x7d\x7b\x7b/each\x7d\x7d"
        (.single [("k", .string "a")]) =
      render .preserve "\x7b\x7b#each k\x7d\x7d\x7b\x7bk\x7d\x7d\x7b\x7bk.f\x7d\x7d\x7b\x7b/each\x7d\x7d"
        (.single [("k", .sequence [.string "a"])]) := by
  generalize htemplate :
    "\x7b\x7b#each k\x7d\x7d\x7b\x7bk\x7d\x7d\x7b\x7bk.f\x7d\x7d\x7b\x7b/each\x7d\x7d" = template
  have htokens : Token.ofSource template = [⟨.tag (.eachOpen "k"), 0, 11⟩,
      ⟨.tag (.placeholder "k"), 11, 16⟩, ⟨.tag (.placeholder "k.f"), 16, 23⟩,
      ⟨.tag .eachClose, 23, 32⟩] := by
    subst htemplate
    decide +kernel
  have hnodes : Node.ofSource template = .ok [.loop "k" 0 [.placeholder "k", .placeholder "k.f"]] := by
    rw [ofSource_eq_ok, htokens]
    rfl
  have hclean : Template.isClean template = true := by
    subst htemplate
    decide +kernel
  have hfilled : String.ofList (replaceFirst (braced "k".toList) "a".toList template.toList) =
      "\x7b\x7b#each k\x7d\x7da\x7b\x7bk.f\x7d\x7d\x7b\x7b/each\x7d\x7d" := by
    subst htemplate
    decide +kernel
  have hsorted : Fields.Sorted ([] : Mapping) := List.Pairwise.nil
  have hkey : isPath "k".toList = true := by decide +kernel
  have hcleanMapping : Value.isClean (.mapping [("f", .string "1")]) = true := by decide +kernel
  have hcleanScalar : Value.isClean (.string "a") = true := by decide +kernel
  obtain ⟨hmapping, -, -⟩ := render_single_row .preserve hclean hnodes (by decide) hsorted rfl hkey
    hcleanMapping nofun
  obtain ⟨-, hscalar, hrow⟩ := render_single_row .preserve hclean hnodes (by decide) hsorted rfl hkey
    hcleanScalar nofun
  refine ⟨hmapping rfl, ?_, hrow rfl (by decide) (by decide) (.inl (by decide))⟩
  rw [← hfilled]
  exact hscalar rfl

/-- A scalar that is rendered otherwise than a loop over it alone, in a clean template with all
placeholders of its key in one loop over it. -/
theorem scalar_fills_twice :
    Template.isClean "\x7b\x7b#each k\x7d\x7d\x7b\x7bk\x7d\x7d\x7b\x7bk\x7d\x7d\x7b\x7b/each\x7d\x7d" = true ∧
      (∃ nodes, Node.ofSource
          "\x7b\x7b#each k\x7d\x7d\x7b\x7bk\x7d\x7d\x7b\x7bk\x7d\x7d\x7b\x7b/each\x7d\x7d" = .ok nodes ∧
        Node.areApart nodes = true ∧ "k" ∉ Node.conditionKeys nodes ∧
        "k" ∉ Node.pathsOutsideOfAll "k" nodes) ∧
      render .preserve "\x7b\x7b#each k\x7d\x7d\x7b\x7bk\x7d\x7d\x7b\x7bk\x7d\x7d\x7b\x7b/each\x7d\x7d"
        (.single [("k", .string "a")]) = "aa" ∧
      render .preserve "\x7b\x7b#each k\x7d\x7d\x7b\x7bk\x7d\x7d\x7b\x7bk\x7d\x7d\x7b\x7b/each\x7d\x7d"
        (.single [("k", .sequence [.string "a"])]) = "a" := by
  have htokens : Token.ofSource
      "\x7b\x7b#each k\x7d\x7d\x7b\x7bk\x7d\x7d\x7b\x7bk\x7d\x7d\x7b\x7b/each\x7d\x7d" =
      [⟨.tag (.eachOpen "k"), 0, 11⟩, ⟨.tag (.placeholder "k"), 11, 16⟩,
        ⟨.tag (.placeholder "k"), 16, 21⟩, ⟨.tag .eachClose, 21, 30⟩] := by decide +kernel
  refine ⟨by decide +kernel, ⟨[.loop "k" 0 [.placeholder "k", .placeholder "k"]], ?_, by decide,
    by decide, by decide⟩, by decide +kernel, by decide +kernel⟩
  rw [ofSource_eq_ok, htokens]
  rfl

end Stencil
