import Stencil.Proofs.Passes
import Stencil.Template.Outline

/-!
# Rendering trees

A template could be rendered on its tree: fill the first placeholder of each scalar key, put the rows
of its value in place of each loop and the branch its condition selects in place of each conditional,
and leave out the placeholders that are left. Each step here is the one that a pass over the text
takes, as it would be written for a tree.

* `Node.rendered`: a tree rendered in a context.
* `forest_induction`: induction over lists of nodes, by their first node.
* `Resolvable`: no block stands in another of its kind, and every loop is bound or dropped. Filling
  placeholders and expanding loops keep it.
-/

namespace Stencil

namespace Node

/-! ### Filling placeholders -/

mutual

/-- The node with the first placeholder of a path in it replaced by a text, if there is one. -/
def put? (path text : String) : Node → Option Node
  | plain _ => none
  | placeholder path' => if path' = path then some (plain text) else none
  | loop key offset body => (putAll? path text body).map (loop key offset)
  | conditional c offset whenTrue whenFalse =>
    ((putAll? path text whenTrue).map (conditional c offset · whenFalse)).or
      ((putBranch? path text whenFalse).map (conditional c offset whenTrue))

/-- The nodes with the first placeholder of a path in them replaced by a text, if there is one. -/
def putAll? (path text : String) : List Node → Option (List Node)
  | [] => none
  | n :: ns => ((put? path text n).map (· :: ns)).or ((putAll? path text ns).map (n :: ·))

/-- The branch with the first placeholder of a path in it replaced by a text, if there is one. -/
def putBranch? (path text : String) : Option (List Node) → Option (Option (List Node))
  | none => none
  | some ns => (putAll? path text ns).map some

end

/-- The first placeholder of a key, filled with a scalar. -/
def fillOne (row : Option String) (nodes : List Node) (key : String) (value : Value) : List Node :=
  if value.isScalar then (putAll? (Placeholder.path row key) value.display nodes).getD nodes
  else nodes

/-- The placeholders filled from a record, entry by entry. -/
def fill (row : Option String) (nodes : List Node) (record : Mapping) : List Node :=
  record.foldl (fun nodes entry => fillOne row nodes entry.1 entry.2) nodes

/-- The placeholders filled from a context, its last mapping first. -/
def fillAll (nodes : List Node) (context : Context) : List Node :=
  context.entries.reverse.foldl (fill none) nodes

/-! ### Expanding blocks -/

/-- The body of a loop filled from one row. -/
def expandRow (key : String) (body : List Node) : Value → List Node
  | .mapping fields => fill (some key) body fields
  | row => fillOne none body key row

/-- The rows of a loop. A loop whose key is not bound has none. -/
def rows (data : Mapping) (key : String) (body : List Node) : List Node :=
  match data.get? key with
  | some value => value.rows.flatMap (expandRow key body)
  | none => []

mutual

/-- What stands in place of a node when the loops are expanded. -/
def expandLoops (data : Mapping) : Node → List Node
  | loop key _ body => rows data key body
  | conditional c offset whenTrue whenFalse =>
    [conditional c offset (expandLoopsAll data whenTrue) (expandLoopsBranch data whenFalse)]
  | node => [node]

/-- The loops in several nodes expanded. -/
def expandLoopsAll (data : Mapping) : List Node → List Node
  | [] => []
  | n :: ns => expandLoops data n ++ expandLoopsAll data ns

/-- The loops in a branch that may be absent expanded. -/
def expandLoopsBranch (data : Mapping) : Option (List Node) → Option (List Node)
  | none => none
  | some ns => some (expandLoopsAll data ns)

end

/-- What stands in place of a node when the conditionals are resolved. -/
def resolve (data : Mapping) : Node → List Node
  | conditional c _ whenTrue whenFalse => if c.holds data then whenTrue else whenFalse.getD []
  | node => [node]

/-- The text of a node where no blocks are left; the placeholders that are left have none. -/
def text : Node → String
  | plain text => text
  | _ => ""

/-- **A tree rendered in a context.** -/
def rendered (context : Context) (nodes : List Node) : String :=
  let expanded := expandLoopsAll context.merged (fillAll nodes context)
  .join ((expanded.flatMap (resolve context.merged)).map text)

end Node

/-- No block around the site is of the same kind as the one at the site. -/
def Site.isApart : Site → Bool
  | placeholder _ => true
  | loop _ _ around => !around.any (·.loopKey?.isSome)
  | conditional _ _ around => !around.any (·.isConditional)

namespace Node

/-- No loop stands in a loop and no conditional in a conditional, at any depth. -/
def areApart (nodes : List Node) : Bool := (sitesOfAll [] nodes).all Site.isApart

/-- The keys of all loops. -/
def loopKeys (nodes : List Node) : List String := (sitesOfAll [] nodes).filterMap Site.loopKey?

/-- Induction over lists of nodes, by the first node and the nodes in it. -/
@[elab_as_elim]
theorem forest_induction {motive : List Node → Prop} (nil : motive [])
    (plain : ∀ text ns, motive ns → motive (.plain text :: ns))
    (placeholder : ∀ path ns, motive ns → motive (.placeholder path :: ns))
    (loop : ∀ key offset body ns, motive body → motive ns → motive (.loop key offset body :: ns))
    (single : ∀ c offset branch ns, motive branch → motive ns →
      motive (.conditional c offset branch none :: ns))
    (double : ∀ c offset whenTrue whenFalse ns, motive whenTrue → motive whenFalse → motive ns →
      motive (.conditional c offset whenTrue (some whenFalse) :: ns)) : ∀ nodes, motive nodes
  | [] => nil
  | .plain text :: ns =>
    plain text ns (forest_induction nil plain placeholder loop single double ns)
  | .placeholder path :: ns =>
    placeholder path ns (forest_induction nil plain placeholder loop single double ns)
  | .loop key offset body :: ns =>
    loop key offset body ns (forest_induction nil plain placeholder loop single double body)
      (forest_induction nil plain placeholder loop single double ns)
  | .conditional c offset branch none :: ns =>
    single c offset branch ns (forest_induction nil plain placeholder loop single double branch)
      (forest_induction nil plain placeholder loop single double ns)
  | .conditional c offset whenTrue (some whenFalse) :: ns =>
    double c offset whenTrue whenFalse ns
      (forest_induction nil plain placeholder loop single double whenTrue)
      (forest_induction nil plain placeholder loop single double whenFalse)
      (forest_induction nil plain placeholder loop single double ns)

end Node

/-! ### Trees whose blocks can be resolved -/

/-- **Resolvable trees.** Loops are over keys that meet `bound`, no loop stands in a loop and no
conditional in a conditional. The flags tell of which kinds there is a block around the nodes. -/
inductive Resolvable (bound : String → Prop) : Bool → Bool → List Node → Prop where
  | nil {inLoop inConditional : Bool} : Resolvable bound inLoop inConditional []
  | plain {inLoop inConditional : Bool} {text : String} {ns : List Node} :
    Resolvable bound inLoop inConditional ns →
    Resolvable bound inLoop inConditional (.plain text :: ns)
  | placeholder {inLoop inConditional : Bool} {path : String} {ns : List Node} :
    Resolvable bound inLoop inConditional ns →
    Resolvable bound inLoop inConditional (.placeholder path :: ns)
  | loop {inConditional : Bool} {key : String} {offset : Nat} {body ns : List Node} :
    bound key → Resolvable bound true inConditional body → Resolvable bound false inConditional ns →
    Resolvable bound false inConditional (.loop key offset body :: ns)
  | single {inLoop : Bool} {c : Condition} {offset : Nat} {branch ns : List Node} :
    Resolvable bound inLoop true branch → Resolvable bound inLoop false ns →
    Resolvable bound inLoop false (.conditional c offset branch none :: ns)
  | double {inLoop : Bool} {c : Condition} {offset : Nat} {whenTrue whenFalse ns : List Node} :
    Resolvable bound inLoop true whenTrue → Resolvable bound inLoop true whenFalse →
    Resolvable bound inLoop false ns →
    Resolvable bound inLoop false (.conditional c offset whenTrue (some whenFalse) :: ns)

open Node

variable {bound : String → Prop} {inLoop inConditional : Bool} {nodes nodes' : List Node}
  {path text key : String} {row : Option String} {value : Value}

/-- What is said of all blocks and the blocks around them can be said along the tree. -/
theorem resolvable_of_sites (around : List Enclosing)
    (h : ∀ site ∈ sitesOfAll around nodes, site.isApart = true ∧ ∀ key ∈ site.loopKey?, bound key) :
    Resolvable bound (around.any (·.loopKey?.isSome)) (around.any (·.isConditional)) nodes := by
  induction nodes using forest_induction generalizing around with
  | nil => exact .nil
  | plain text ns ih =>
    rw [sitesOfAll, sites, List.nil_append] at h
    exact .plain (ih _ h)
  | placeholder path ns ih =>
    rw [sitesOfAll, sites, List.singleton_append, List.forall_mem_cons] at h
    exact .placeholder (ih _ h.2)
  | loop key offset body ns ihbody ih =>
    rw [sitesOfAll, sites, List.cons_append, List.forall_mem_cons, List.forall_mem_append] at h
    obtain ⟨⟨hapart, hbound⟩, hbody, hns⟩ := h
    have hout : around.any (·.loopKey?.isSome) = false := by simpa [Site.isApart] using hapart
    have hns := ih _ hns
    -- the loop itself stands around its body
    have hbody := ihbody _ hbody
    rw [List.any_cons, List.any_cons] at hbody
    rw [hout] at hns ⊢
    exact .loop (hbound key rfl) hbody hns
  | single c offset branch ns ihbranch ih =>
    rw [sitesOfAll, sites, List.cons_append, List.forall_mem_cons, List.forall_mem_append,
      List.forall_mem_append] at h
    obtain ⟨⟨hapart, -⟩, ⟨hbranch, -⟩, hns⟩ := h
    have hout : around.any (·.isConditional) = false := by simpa [Site.isApart] using hapart
    have hns := ih _ hns
    have hbranch := ihbranch _ hbranch
    rw [List.any_cons, List.any_cons] at hbranch
    rw [hout] at hns ⊢
    exact .single hbranch hns
  | double c offset whenTrue whenFalse ns ihtrue ihfalse ih =>
    rw [sitesOfAll, sites, List.cons_append, List.forall_mem_cons, List.forall_mem_append,
      List.forall_mem_append] at h
    obtain ⟨⟨hapart, -⟩, ⟨htrue, hfalse⟩, hns⟩ := h
    have hout : around.any (·.isConditional) = false := by simpa [Site.isApart] using hapart
    have hns := ih _ hns
    have htrue := ihtrue _ htrue
    have hfalse := ihfalse _ hfalse
    rw [List.any_cons, List.any_cons] at htrue hfalse
    rw [hout] at hns ⊢
    exact .double htrue hfalse hns

/-- The tree of a template is resolvable where its blocks are apart and its loops are bound. -/
theorem resolvable_of_areApart (hapart : areApart nodes = true)
    (hbound : ∀ key ∈ loopKeys nodes, bound key) : Resolvable bound false false nodes := by
  refine resolvable_of_sites [] fun site hsite => ⟨List.all_eq_true.1 hapart site hsite, ?_⟩
  intro key hkey
  exact hbound key (List.mem_filterMap.2 ⟨site, hsite, hkey⟩)

/-- Resolvable nodes one after the other. -/
theorem Resolvable.append (h : Resolvable bound inLoop inConditional nodes)
    (h' : Resolvable bound inLoop inConditional nodes') :
    Resolvable bound inLoop inConditional (nodes ++ nodes') := by
  induction h with
  | nil => exact h'
  | plain _ ih => exact .plain (ih h')
  | placeholder _ ih => exact .placeholder (ih h')
  | loop hkey hbody _ _ ih => exact .loop hkey hbody (ih h')
  | single hbranch _ _ ih => exact .single hbranch (ih h')
  | double htrue hfalse _ _ _ ih => exact .double htrue hfalse (ih h')

/-- Resolvable nodes for each item of a list. -/
theorem Resolvable.flatMap {α : Type} {f : α → List Node} {xs : List α}
    (h : ∀ x ∈ xs, Resolvable bound inLoop inConditional (f x)) :
    Resolvable bound inLoop inConditional (xs.flatMap f) := by
  induction xs with
  | nil => exact .nil
  | cons x xs ih =>
    rw [List.forall_mem_cons] at h
    rw [List.flatMap_cons]
    exact h.1.append (ih h.2)

/-! ### The steps keep trees resolvable -/

/-- Filling a placeholder leaves the blocks as they are. -/
theorem Resolvable.put (h : Resolvable bound inLoop inConditional nodes)
    (hput : putAll? path text nodes = some nodes') :
    Resolvable bound inLoop inConditional nodes' := by
  induction h generalizing nodes' with
  | nil => cases hput
  | plain _ ih =>
    simp only [putAll?, put?, Option.map_none, Option.none_or, Option.map_eq_some_iff] at hput
    obtain ⟨ns, hns, rfl⟩ := hput
    exact .plain (ih hns)
  | @placeholder _ _ path' ns hns ih =>
    rw [putAll?, put?] at hput
    by_cases hpath : path' = path
    · rw [if_pos hpath] at hput
      obtain rfl := Option.some.inj hput
      exact .plain hns
    · rw [if_neg hpath] at hput
      obtain ⟨ns', hns', rfl⟩ := Option.map_eq_some_iff.1 hput
      exact .placeholder (ih hns')
  | loop hkey hbody hns ihbody ih =>
    simp only [putAll?, put?, Option.map_map, Option.or_eq_some_iff, Option.map_eq_some_iff] at hput
    -- the placeholder is in the body or behind the loop
    rcases hput with ⟨body, hin, rfl⟩ | ⟨-, ns, hin, rfl⟩
    · exact .loop hkey (ihbody hin) hns
    · exact .loop hkey hbody (ih hin)
  | single hbranch hns ihbranch ih =>
    simp only [putAll?, put?, putBranch?, Option.map_or, Option.map_map, Option.or_eq_some_iff,
      Option.map_eq_some_iff] at hput
    rcases hput with (⟨branch, hin, rfl⟩ | ⟨-, _, hin, -⟩) | ⟨-, ns, hin, rfl⟩
    · exact .single (ihbranch hin) hns
    · cases hin
    · exact .single hbranch (ih hin)
  | double htrue hfalse hns ihtrue ihfalse ih =>
    simp only [putAll?, put?, putBranch?, Option.map_or, Option.map_map, Option.or_eq_some_iff,
      Option.map_eq_some_iff] at hput
    rcases hput with (⟨branch, hin, rfl⟩ | ⟨-, branch, hin, rfl⟩) | ⟨-, ns, hin, rfl⟩
    · exact .double (ihtrue hin) hfalse hns
    · exact .double htrue (ihfalse hin) hns
    · exact .double htrue hfalse (ih hin)

theorem Resolvable.fillOne (h : Resolvable bound inLoop inConditional nodes) :
    Resolvable bound inLoop inConditional (fillOne row nodes key value) := by
  unfold Node.fillOne
  by_cases hscalar : value.isScalar = true
  · rw [if_pos hscalar]
    cases hput : putAll? (Placeholder.path row key) value.display nodes with
    | none => exact h
    | some nodes' => exact h.put hput
  · rw [if_neg hscalar]
    exact h

/-- A record is filled in step by step. -/
theorem Resolvable.fill {record : Mapping} (h : Resolvable bound inLoop inConditional nodes) :
    Resolvable bound inLoop inConditional (fill row nodes record) := by
  induction record generalizing nodes with
  | nil => exact h
  | cons entry record ih => exact ih h.fillOne

theorem Resolvable.fillAll {context : Context} (h : Resolvable bound inLoop inConditional nodes) :
    Resolvable bound inLoop inConditional (fillAll nodes context) := by
  unfold Node.fillAll
  generalize context.entries.reverse = entries
  induction entries generalizing nodes with
  | nil => exact h
  | cons m entries ih => exact ih h.fill

/-- The rows of a loop are made of its body. -/
theorem Resolvable.rows {data : Mapping} (h : Resolvable bound inLoop inConditional nodes) :
    Resolvable bound inLoop inConditional (rows data key nodes) := by
  unfold Node.rows
  cases data.get? key with
  | none => exact .nil
  | some value =>
    refine .flatMap fun row _ => ?_
    cases row with
    | mapping fields => exact h.fill
    | _ => exact h.fillOne

/-- No loop is left once the loops are expanded, and conditionals stay apart. -/
theorem Resolvable.expandLoopsAll {data : Mapping} (h : Resolvable bound inLoop inConditional nodes) :
    Resolvable bound true inConditional (expandLoopsAll data nodes) := by
  induction h with
  | nil => exact .nil
  | plain _ ih => exact .plain ih
  | placeholder _ ih => exact .placeholder ih
  | loop _ hbody _ _ ih => exact hbody.rows.append ih
  | single _ _ ihbranch ih => exact .single ihbranch ih
  | double _ _ _ ihtrue ihfalse ih => exact .double ihtrue ihfalse ih

/-- No block is left once the conditionals are resolved too. -/
theorem Resolvable.resolve {data : Mapping} (h : Resolvable bound true false nodes) :
    Resolvable bound true true (nodes.flatMap (resolve data)) := by
  generalize hloop : true = inLoop at h
  generalize hconditional : false = inConditional at h
  induction h with
  | nil => exact .nil
  | plain _ ih => exact .plain (ih hloop hconditional)
  | placeholder _ ih => exact .placeholder (ih hloop hconditional)
  | loop => cases hloop
  -- what takes the place of a conditional has none in it
  | single hbranch _ _ ih =>
    subst hloop
    refine .append ?_ (ih rfl rfl)
    rw [Node.resolve]
    split
    · exact hbranch
    · exact .nil
  | double htrue hfalse _ _ _ ih =>
    subst hloop
    refine .append ?_ (ih rfl rfl)
    rw [Node.resolve]
    split
    · exact htrue
    · exact hfalse

end Stencil
