import Mathlib.Data.List.Nodup
import Stencil.Proofs.Edits
import Stencil.Widget.Callback

/-!
# Runs of a registry

A registry is changed by registrations and asked by invocations, in any order. What an invocation does
depends on the registrations before it only, and under each name on the latest of them. Which names are
suggested for one that is not there depends on neither the order of the registrations nor the order in
which the registry lists its names.

* `registered`: the handlers registered under a name. `Dispatches`: what an invocation is to do.
* `pairwise_ranked`, `mem_ranked`, `ranked_congr`: the ranking of the close names, from any list of them.
* `get?_after`: what the registry finds after some steps.
* `dispatches_perform`: one invocation after any steps.
* `run_dispatches`: whole runs, all orders, and the distance that ranks the names.
-/

namespace Stencil

open Text

/-- A step on a registry. -/
inductive RegistryStep (Handler : Type) where
  | register (name : String) (h : Handler)
  | invoke (c : Callback Handler)

/-- The handlers registered under a name, from the first to the latest. -/
def registered {Handler : Type} (name : String) : List (RegistryStep Handler) → List Handler
  | [] => []
  | .register other h :: steps =>
    if other = name then h :: registered name steps else registered name steps
  | .invoke _ :: steps => registered name steps

/-- The invocations among some steps, each with the steps before it; `before` has been taken already. -/
def invocations {Handler : Type} (before : List (RegistryStep Handler)) :
    List (RegistryStep Handler) → List (List (RegistryStep Handler) × Callback Handler)
  | [] => []
  | .register name h :: steps => invocations (before ++ [.register name h]) steps
  | .invoke c :: steps => (before, c) :: invocations (before ++ [.invoke c]) steps

/-- One name is closer than another, or as close and before it in order. -/
def IsCloser (name a b : String) : Prop :=
  distance name.toList a.toList < distance name.toList b.toList ∨
    distance name.toList a.toList = distance name.toList b.toList ∧ a < b

/-- The registered names at a distance of three at most, the closest first. -/
def Ranks {Handler : Type} (steps : List (RegistryStep Handler)) (name : String)
    (names : List String) : Prop :=
  names.Pairwise (IsCloser name) ∧ ∀ other, other ∈ names ↔
    registered other steps ≠ [] ∧ distance name.toList other.toList ≤ 3

/-- **What an invocation is to do** after some steps: run the handler that is given or was registered
last under the name, and run it once; or nothing; or tell the names that are closest. -/
inductive Dispatches {m : Type → Type} [Monad m] (steps : List (RegistryStep (m Unit))) :
    Callback (m Unit) → m (Except WidgetFault Bool) → Prop where
  | given (h : m Unit) : Dispatches steps (.handler h) (do h; return .ok true)
  | disabled : Dispatches steps .disabled (return .ok false)
  | latest {name : String} {h : m Unit} : (registered name steps).getLast? = some h →
    Dispatches steps (.named name) (do h; return .ok true)
  | unknown {name : String} {names : List String} : registered name steps = [] →
    Ranks steps name names →
    Dispatches steps (.named name) (return .error (.unknownCallback name (names.take 3)))

namespace CallbackRegistry

/-! ### The ranking of close names -/

section Ranking

variable {known known' : List String} {name other : String}

theorem precedes_trans (p q r : Nat × String) (hpq : precedes p q = true)
    (hqr : precedes q r = true) : precedes p r = true := by
  simp only [precedes, decide_eq_true_eq] at *
  rcases hpq with hpq | ⟨hpq, hnames⟩
  · rcases hqr with hqr | ⟨hqr, -⟩
    · exact .inl (Nat.lt_trans hpq hqr)
    · exact .inl (hqr ▸ hpq)
  · rcases hqr with hqr | ⟨hqr, hnames'⟩
    · exact .inl (hpq ▸ hqr)
    · exact .inr ⟨hpq.trans hqr, String.le_trans hnames hnames'⟩

theorem precedes_total (p q : Nat × String) : (precedes p q || precedes q p) = true := by
  simp only [precedes, Bool.or_eq_true, decide_eq_true_eq]
  rcases Nat.lt_trichotomy p.1 q.1 with hlt | heq | hgt
  · exact .inl (.inl hlt)
  · rcases String.le_total p.2 q.2 with hle | hle
    · exact .inl (.inr ⟨heq, hle⟩)
    · exact .inr (.inr ⟨heq.symm, hle⟩)
  · exact .inr (.inl hgt)

theorem precedes_antisymm {p q : Nat × String} (hpq : precedes p q = true)
    (hqp : precedes q p = true) : p = q := by
  simp only [precedes, decide_eq_true_eq] at *
  have hdistance : p.1 = q.1 := by omega
  have hle : p.2 ≤ q.2 := by
    rcases hpq with h | h
    · omega
    · exact h.2
  have hge : q.2 ≤ p.2 := by
    rcases hqp with h | h
    · omega
    · exact h.2
  exact Prod.ext hdistance (String.le_antisymm hle hge)

/-- The names that are known with their distances, as far as they are close. -/
def scored (known : List String) (name : String) : List (Nat × String) :=
  (known.map fun other => (distance name.toList other.toList, other)).filter
    fun p => decide (p.1 ≤ suggestionDistance)

theorem ranked_eq (known : List String) (name : String) :
    ranked known name = ((scored known name).mergeSort precedes).map Prod.snd := rfl

/-- The names that are scored are those within the distance. -/
theorem mem_scored {p : Nat × String} : p ∈ scored known name ↔
    p.1 = distance name.toList p.2.toList ∧ p.2 ∈ known ∧ p.1 ≤ 3 := by
  rw [scored, List.mem_filter, List.mem_map, suggestionDistance, decide_eq_true_eq]
  constructor
  · rintro ⟨⟨other, hmem, rfl⟩, hclose⟩
    exact ⟨rfl, hmem, hclose⟩
  · rintro ⟨hdistance, hmem, hclose⟩
    exact ⟨⟨p.2, hmem, Prod.ext hdistance.symm rfl⟩, hclose⟩

/-- The names that are ranked are those within the distance. -/
theorem mem_ranked : other ∈ ranked known name ↔
    other ∈ known ∧ distance name.toList other.toList ≤ 3 := by
  rw [ranked_eq, List.mem_map]
  constructor
  · rintro ⟨p, hp, rfl⟩
    obtain ⟨hdistance, hmem, hclose⟩ := mem_scored.1 (List.mem_mergeSort.1 hp)
    exact ⟨hmem, hdistance ▸ hclose⟩
  · rintro ⟨hmem, hclose⟩
    exact ⟨(_, other), List.mem_mergeSort.2 (mem_scored.2 ⟨rfl, hmem, hclose⟩), rfl⟩

/-- No name is scored twice. -/
theorem nodup_scored (h : known.Nodup) (name : String) : (scored known name).Nodup := by
  have hsnd : Function.Injective fun other : String => (distance name.toList other.toList, other) := by
    intro a b hab
    exact (Prod.mk.inj hab).2
  exact (List.Nodup.map hsnd h).filter _

/-- **The closest come first**, and no two names are equally placed. -/
theorem pairwise_ranked (h : known.Nodup) (name : String) :
    (ranked known name).Pairwise (IsCloser name) := by
  have hsorted := List.pairwise_mergeSort precedes_trans precedes_total (scored known name)
  have hnodup : ((scored known name).mergeSort precedes).Nodup :=
    (List.mergeSort_perm _ _).nodup_iff.2 (nodup_scored h name)
  rw [ranked_eq, List.pairwise_map]
  refine (hsorted.and hnodup).imp_of_mem fun {p q} hp hq hpq => ?_
  obtain ⟨hprecedes, hne⟩ := hpq
  have hp : p.1 = distance name.toList p.2.toList := (mem_scored.1 (List.mem_mergeSort.1 hp)).1
  have hq : q.1 = distance name.toList q.2.toList := (mem_scored.1 (List.mem_mergeSort.1 hq)).1
  simp only [precedes, decide_eq_true_eq] at hprecedes
  unfold IsCloser
  rw [← hp, ← hq]
  refine hprecedes.imp_right fun ⟨hdistance, hle⟩ => ⟨hdistance, ?_⟩
  exact String.not_le.1 fun hge => hne (Prod.ext hdistance (String.le_antisymm hle hge))

/-- **The ranking does not depend on how the names are listed.** -/
theorem ranked_congr (h : known.Nodup) (h' : known'.Nodup) (hsame : ∀ a, a ∈ known ↔ a ∈ known')
    (name : String) : ranked known name = ranked known' name := by
  have hperm : known.Perm known' := (List.perm_ext_iff_of_nodup h h').2 hsame
  have hscored : (scored known name).Perm (scored known' name) := (hperm.map _).filter _
  have hsorted := List.pairwise_mergeSort precedes_trans precedes_total
  rw [ranked_eq, ranked_eq]
  refine congrArg _ (List.Perm.eq_of_pairwise (fun p q _ _ => precedes_antisymm) (hsorted _)
    (hsorted _) ?_)
  exact (List.mergeSort_perm _ _).trans (hscored.trans (List.mergeSort_perm _ _).symm)

end Ranking

/-! ### The registry after some steps -/

section After

variable {Handler : Type} {r : CallbackRegistry Handler} {steps : List (RegistryStep Handler)}

/-- The registry after some steps. -/
def after (r : CallbackRegistry Handler) : List (RegistryStep Handler) → CallbackRegistry Handler
  | [] => r
  | .register name h :: steps => (r.register name h).after steps
  | .invoke _ :: steps => r.after steps

/-- Steps are taken one after the other. -/
theorem after_append (r : CallbackRegistry Handler) (steps more : List (RegistryStep Handler)) :
    r.after (steps ++ more) = (r.after steps).after more := by
  induction steps generalizing r with
  | nil => rfl
  | cons step steps ih =>
    cases step with
    | register name h => exact ih (r.register name h)
    | invoke c => exact ih r

/-- Every step keeps the names in order. -/
theorem sorted_after (h : r.handlers.Sorted) (steps : List (RegistryStep Handler)) :
    (r.after steps).handlers.Sorted := by
  induction steps generalizing r with
  | nil => exact h
  | cons step steps ih =>
    cases step with
    | register name handler => exact ih (Fields.sorted_insert h name handler)
    | invoke c => exact ih h

/-- **What the registry finds** is what was registered last, if it was not there before. -/
theorem get?_after (r : CallbackRegistry Handler) (steps : List (RegistryStep Handler))
    (name : String) : (r.after steps).handlers.get? name =
      (registered name steps).getLast?.or (r.handlers.get? name) := by
  induction steps generalizing r with
  | nil => rfl
  | cons step steps ih =>
    cases step with
    | register other h =>
      rw [after, ih, register, Fields.get?_insert, registered]
      by_cases hname : other = name
      · rw [if_pos hname, if_pos hname.symm, List.getLast?_cons]
        cases (registered name steps).getLast? <;> rfl
      · rw [if_neg hname, if_neg (Ne.symm hname)]
    | invoke c => exact ih r

/-- **The handler of a name** is the one that was registered last. -/
theorem get?_after_empty (steps : List (RegistryStep Handler)) (name : String) :
    ((empty : CallbackRegistry Handler).after steps).handlers.get? name =
      (registered name steps).getLast? := by
  have hnone : (empty : CallbackRegistry Handler).handlers.get? name = none := rfl
  rw [get?_after, hnone, Option.or_none]

/-- The names are those that were ever registered. -/
theorem mem_keys_after_empty {name : String} :
    name ∈ ((empty : CallbackRegistry Handler).after steps).handlers.keys ↔
      registered name steps ≠ [] := by
  rw [Fields.mem_keys_iff, get?_after_empty, List.getLast?_isSome]

theorem nodup_keys_after_empty (steps : List (RegistryStep Handler)) :
    ((empty : CallbackRegistry Handler).after steps).handlers.keys.Nodup :=
  Fields.nodup_keys (sorted_after List.Pairwise.nil steps)

/-- The suggestions after some steps are the same from every list of the registered names. -/
theorem closest_eq_suggestions {known : List String} (h : known.Nodup)
    (hknown : ∀ other, other ∈ known ↔ registered other steps ≠ []) (name : String) :
    closest known name = ((empty : CallbackRegistry Handler).after steps).suggestions name := by
  have hsame : ∀ other, other ∈ known ↔
      other ∈ ((empty : CallbackRegistry Handler).after steps).handlers.keys := by
    intro other
    rw [hknown, mem_keys_after_empty]
  rw [closest, suggestions, closest, ranked_congr h (nodup_keys_after_empty steps) hsame]

end After

/-! ### Invocations -/

section Perform

variable {m : Type → Type} [Monad m] {steps steps' : List (RegistryStep (m Unit))}

/-- **One invocation after any steps** does what it is to do. -/
theorem dispatches_perform (steps : List (RegistryStep (m Unit))) (c : Callback (m Unit)) :
    Dispatches steps c ((empty.after steps).perform c) := by
  cases c with
  | handler h => exact .given h
  | disabled => exact .disabled
  | named name =>
    have hget := get?_after_empty steps name
    cases hfound : (registered name steps).getLast? with
    | some h =>
      simp only [perform, invoke, hget, hfound]
      exact .latest hfound
    | none =>
      simp only [perform, invoke, hget, hfound]
      have hnothing : registered name steps = [] := List.getLast?_eq_none_iff.1 hfound
      refine .unknown hnothing ⟨pairwise_ranked (nodup_keys_after_empty steps) name, ?_⟩
      intro other
      rw [mem_ranked, mem_keys_after_empty]

/-- What an invocation does depends on what is registered under each name, in its order. -/
theorem perform_congr (h : ∀ name, registered name steps = registered name steps')
    (c : Callback (m Unit)) : (empty.after steps).perform c = (empty.after steps').perform c := by
  cases c with
  | handler h => rfl
  | disabled => rfl
  | named name =>
    have hsuggestions : (empty.after steps).suggestions name = (empty.after steps').suggestions name := by
      refine closest_eq_suggestions (nodup_keys_after_empty steps) (fun other => ?_) name
      rw [mem_keys_after_empty, h]
    simp only [perform, invoke, get?_after_empty, h, hsuggestions]

/-- Takes steps one after the other, and answers for each invocation. -/
def run (r : CallbackRegistry (m Unit)) :
    List (RegistryStep (m Unit)) → m (List (Except WidgetFault Bool))
  | [] => return []
  | .register name h :: steps => (r.register name h).run steps
  | .invoke c :: steps => do
    let answer ← r.perform c
    let answers ← r.run steps
    return answer :: answers

variable [LawfulMonad m]

/-- Each invocation is dispatched in the registry as it is then, by induction on the steps. -/
theorem run_after (before steps : List (RegistryStep (m Unit))) :
    ∃ actions, List.Forall₂ (fun i action => Dispatches i.1 i.2 action) (invocations before steps)
        actions ∧ (empty.after before).run steps = actions.mapM id := by
  induction steps generalizing before with
  | nil => exact ⟨[], .nil, rfl⟩
  | cons step steps ih =>
    obtain ⟨actions, hactions, hrun⟩ := ih (before ++ [step])
    rw [after_append] at hrun
    cases step with
    | register name h => exact ⟨actions, hactions, hrun⟩
    | invoke c =>
      refine ⟨(empty.after before).perform c :: actions, .cons (dispatches_perform before c) hactions,
        ?_⟩
      rw [List.mapM_cons, ← hrun]
      rfl

/-- **Whole runs of a registry.** In a run of registrations and invocations each invocation does what it
is to do after the steps before it. Two runs that register the same handlers under each name, whatever
the order of the names, leave registries that answer alike; the suggestions are the same from every list
of the registered names; and the distance that ranks them is the least number of edits. -/
theorem run_dispatches :
    (∀ steps : List (RegistryStep (m Unit)), ∃ actions,
      List.Forall₂ (fun i action => Dispatches i.1 i.2 action) (invocations [] steps) actions ∧
        empty.run steps = actions.mapM id) ∧
    (∀ steps steps' : List (RegistryStep (m Unit)),
      (∀ name, registered name steps = registered name steps') →
        ∀ c, (empty.after steps).perform c = (empty.after steps').perform c) ∧
    (∀ (steps : List (RegistryStep (m Unit))) (known : List String), known.Nodup →
      (∀ other, other ∈ known ↔ registered other steps ≠ []) →
        ∀ name, closest known name = (empty.after steps).suggestions name) ∧
    ∀ s t : List Char, IsLeast {n | Edits n s t} (distance s t) :=
  ⟨run_after [], fun _ _ => perform_congr, fun _ _ => closest_eq_suggestions, isLeast_distance⟩

/-- Two names registered in both orders, and one that is misspelt. -/
theorem dispatches_in_both_orders :
    (∀ name, registered name [.register "open" (modify ("o" :: ·) : StateM (List String) Unit),
        .register "close" (modify ("c" :: ·))] =
      registered name [.register "close" (modify ("c" :: ·)), .register "open" (modify ("o" :: ·))]) ∧
    (empty.after [.register "open" (modify ("o" :: ·) : StateM (List String) Unit),
        .register "close" (modify ("c" :: ·))]).perform (.named "opne") =
      (empty.after [.register "close" (modify ("c" :: ·)),
        .register "open" (modify ("o" :: ·))]).perform (.named "opne") := by
  have hsame : ∀ name, registered name
        [.register "open" (modify ("o" :: ·) : StateM (List String) Unit),
          .register "close" (modify ("c" :: ·))] =
      registered name
        [.register "close" (modify ("c" :: ·)), .register "open" (modify ("o" :: ·))] := by
    intro name
    simp only [registered]
    by_cases hopen : "open" = name
    · have hclose : "close" ≠ name := by
        rw [← hopen]
        decide
      simp only [if_pos hopen, if_neg hclose]
    · simp only [if_neg hopen]
  exact ⟨hsame, run_dispatches.2.1 _ _ hsame _⟩

end Perform

end CallbackRegistry

end Stencil
