import Stencil.Report.Explanation

/-!
# Problems under layers

A problem reaches its report under any number of layers, put on one by one. A layer changes the text of
the problem and adds to its chain, and it leaves the cause alone. So the suggestion never depends on the
layers, and the details do only where they are taken from the chain.

* `Problem.cause_under`, `Problem.chain_under`: what a layer does, for any number of them.
* `Cause.explanation_of_isOwn`, `Cause.explanation_of_isOwn_eq_false`: where the details come from.
* `Problem.details_of_isOwn_eq_false`: the details that are taken from the chain, a bare TOML fault
  included.
* `Problem.report_under`: the suggestion and the details under any layers.
-/

namespace Stencil

namespace Cause

/-- Whether the cause is one of the program's own faults: of a template, of a widget or of its inputs. -/
def isOwn : Cause → Bool
  | foreign _ => false
  | exception _ => false
  | plain _ => false
  | chained cause _ => cause.isOwn
  | _ => true

/-- Whether the cause lies in a TOML text. -/
def isToml : Cause → Bool
  | foreign (.toml _) => true
  | chained cause _ => cause.isToml
  | _ => false

/-- The program's own faults explain themselves. -/
theorem explanation_of_isOwn {cause : Cause} (h : cause.isOwn = true) :
    ∃ details, cause.explanation = .own details := by
  induction cause with
  | template fault => cases fault <;> exact ⟨_, rfl⟩
  | widget fault => exact ⟨_, rfl⟩
  | data path format reason => exact ⟨_, rfl⟩
  | unknownFormat path extension => exact ⟨_, rfl⟩
  | settings message => exact ⟨_, rfl⟩
  | labelled fault => exact ⟨_, rfl⟩
  | chained cause below ih => exact ih h
  | foreign fault => cases h
  | exception e => cases h
  | plain message => cases h

/-- Any other cause is explained by its chain. -/
theorem explanation_of_isOwn_eq_false {cause : Cause} (h : cause.isOwn = false) :
    cause.explanation = if cause.isToml then .fullChain else .chain := by
  induction cause with
  | foreign fault => cases fault <;> rfl
  | exception e => rfl
  | plain message => rfl
  | chained cause below ih => exact ih h
  | template fault => cases h
  | widget fault => cases h
  | data path format reason => cases h
  | unknownFormat path extension => cases h
  | settings message => cases h
  | labelled fault => cases h

end Cause

namespace Problem

/-- The problem under layers, the first of them put on first. -/
def under (p : Problem) (layers : List String) : Problem := layers.foldl within p

theorem cause_under (p : Problem) (layers : List String) : (p.under layers).cause = p.cause := by
  induction layers generalizing p with
  | nil => rfl
  | cons layer layers ih => exact ih (p.within layer)

/-- The last layer is the outermost. -/
theorem chain_under (p : Problem) (layers : List String) :
    (p.under layers).chain = layers.reverse ++ p.chain := by
  induction layers generalizing p with
  | nil => rfl
  | cons layer layers ih =>
    have hstep : p.under (layer :: layers) = (p.within layer).under layers := rfl
    rw [hstep, ih, chain_within, List.reverse_cons, List.append_assoc, List.singleton_append]

theorem details_of_isOwn {p : Problem} (h : p.cause.isOwn = true) (layers : List String) :
    (p.under layers).details = p.details := by
  obtain ⟨details, hown⟩ := Cause.explanation_of_isOwn h
  unfold Problem.details
  rw [cause_under, hown]

/-- The details that are taken from the chain. Only a TOML fault has any where no text is below the
outermost. -/
theorem details_of_isOwn_eq_false {p : Problem} (h : p.cause.isOwn = false) :
    p.details = if p.causes = [] ∧ p.cause.isToml = false then none
      else some (String.intercalate chainMark p.causes) := by
  unfold details chainDetails
  rw [Cause.explanation_of_isOwn_eq_false h]
  by_cases hcauses : p.causes = []
  · cases p.cause.isToml with
    | false => simp [hcauses]
    | true => simp [hcauses, String.intercalate_nil]
  · cases p.cause.isToml <;> simp [hcauses]

/-- **Reports depend on layers through the chain only.** The suggestion is that of the cause. The program's
own faults have the details they have without layers. For any other cause the details are the texts
below the outermost, and there are none just where no text is below it; a bare TOML fault is left out. -/
theorem report_under (cause : Cause) (layers : List String) :
    let p := (ofCause cause).under layers
    p.report.suggestion = (ofCause cause).report.suggestion ∧
    (cause.isOwn = true → p.report.details = (ofCause cause).report.details) ∧
    (cause.isOwn = false → p.causes = (layers.reverse ++ cause.chain).tail ∧
      (p.causes ≠ [] → p.report.details = some (String.intercalate chainMark p.causes)) ∧
      (p.causes = [] → cause.isToml = false → p.report.details = none)) := by
  intro p
  have hcause : p.cause = cause := cause_under (ofCause cause) layers
  have hchain : p.chain = layers.reverse ++ cause.chain := by
    rw [chain_under]
    rfl
  refine ⟨congrArg Cause.suggestion hcause, fun hown => details_of_isOwn hown layers, ?_⟩
  intro hforeign
  have hdetails := details_of_isOwn_eq_false (hcause ▸ hforeign)
  refine ⟨congrArg List.tail hchain, ?_, ?_⟩
  · intro hcauses
    rwa [if_neg fun h => hcauses h.1] at hdetails
  · intro hcauses htoml
    rwa [if_pos ⟨hcauses, hcause ▸ htoml⟩] at hdetails

/-- A missing file has no details by itself, and under two layers it has the inner one and its own text. -/
theorem report_under_of_missing_file :
    let cause := Cause.foreign (.file ⟨.notFound, "gone"⟩)
    let p := (ofCause cause).under ["reading a", "rendering b"]
    (ofCause cause).report.details = none ∧
      p.report.suggestion = (ofCause cause).report.suggestion ∧
      p.report.details = some "reading a\n  caused by: gone" := by
  intro cause p
  have hforeign : cause.isOwn = false := rfl
  have hcauses : p.causes = ["reading a", "gone"] := rfl
  have hne : p.causes ≠ [] := by
    rw [hcauses]
    exact List.cons_ne_nil "reading a" ["gone"]
  obtain ⟨-, -, hbare⟩ := report_under cause []
  obtain ⟨hsuggestion, -, hlayered⟩ := report_under cause ["reading a", "rendering b"]
  have hnone := (hbare hforeign).2.2 rfl rfl
  have hsome := (hlayered hforeign).2.1 hne
  refine ⟨hnone, hsuggestion, ?_⟩
  rw [hsome, hcauses]
  decide

/-- A TOML fault with no text below it has empty details, where any other cause has none. -/
theorem bare_toml_has_empty_details :
    let p := ofCause (.foreign (.toml "bad toml"))
    p.report.details = some "" ∧ ¬ (p.report.details = none ↔ p.causes = []) := by
  intro p
  have hdetails : p.report.details = some "" := rfl
  have hcauses : p.causes = [] := rfl
  refine ⟨hdetails, fun habsent => ?_⟩
  have hnone := habsent.2 hcauses
  rw [hdetails] at hnone
  cases hnone

end Problem

end Stencil
