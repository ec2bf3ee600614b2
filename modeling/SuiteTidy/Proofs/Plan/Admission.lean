import SuiteTidy.Proofs.Plan.Check
import SuiteTidy.Proofs.Plan.Planning

/-!
Plans that are made against the rules that plans are checked by. The two parts limit the number of
operations separately: a plan gets an operation for each group of its file, and the rules allow
fifty. Main statement: this is the only rule that a new plan can break.
-/

set_option autoImplicit false
set_option relaxedAutoImplicit false

namespace SuiteTidy.Planning

private theorem planId_ne_empty (n : Nat) : planId n ≠ "" := by
  simp [planId]

private theorem describe_ne_empty (t : TestFile) (a : Action) : describe t a ≠ "" := by
  cases a <;> simp [describe]

/-- A new plan keeps every rule but perhaps the limit on operations. -/
private theorem acceptable_planned_iff {t : TestFile} (hcurrent : t.Current)
    (hneeds : t.needsRefactoring) {tree : FileTree} (hfile : tree.exists_ t.facts.path = .ok true)
    (n : Nat) (now : Moment) :
    PlanCheck.Acceptable tree (planned (planId n) now t) ↔ t.categories.length ≤ 50 := by
  have hlength : (planned (planId n) now t).operations.length =
      (operationsFor t (choose t).1).length := by simp [planned]
  have hcount := length_operationsFor hneeds
  constructor
  · intro h
    have hfew := h.operations_few
    omega
  · intro hfew
    refine {
      id_given := planId_ne_empty n
      description_given := describe_ne_empty t _
      reason_given := hcurrent.refactoringReason_ne_empty hneeds
      source_exists := ⟨t.facts.path, rfl, hfile⟩
      operations_given := by omega
      operations_few := by omega
      operation := ?_
      confidence_enough := ?_
      confidence_atMost_one := (confidence_bounds _ _).2
      status_open := .inr rfl }
    · intro o ho
      obtain ⟨o', ho', rfl⟩ := List.mem_map.mp ho
      obtain ⟨haction, path, htarget⟩ := operation_of_mem ho'
      refine ⟨o', rfl, ?_, .path path, htarget, by simp⟩
      rcases haction with haction | haction <;> simp [haction]
    · have hmin : Number.atMost (.real 0.3) (.real 0.5) := by decide
      exact Number.atMost_trans hmin (confidence_bounds _ _).1

private theorem plan_planned_of_many {t : TestFile} (hcurrent : t.Current)
    (hneeds : t.needsRefactoring) {tree : FileTree} (hfile : tree.exists_ t.facts.path = .ok true)
    (n : Nat) (now : Moment) (hmany : 50 < t.categories.length) :
    PlanCheck.plan tree (planned (planId n) now t) =
      .error (.invalid "Plan has too many operations (max: 50)"
        [("plan_id", .text (planId n)), ("count", .nat t.categories.length)]) := by
  have htexts : PlanCheck.texts (planned (planId n) now t) = .ok () :=
    (PlanCheck.texts_eq_ok_iff _).mpr
      ⟨planId_ne_empty n, describe_ne_empty t _, hcurrent.refactoringReason_ne_empty hneeds⟩
  have hsource : PlanCheck.source tree (planned (planId n) now t) = .ok () :=
    (PlanCheck.source_eq_ok_iff _ _).mpr ⟨t.facts.path, rfl, hfile⟩
  have hlength : (planned (planId n) now t).operations.length = t.categories.length := by
    have hcount := length_operationsFor hneeds
    simp only [planned, List.length_map]
    omega
  have hrule : "Plan has too many operations (max: " ++ toString PlanCheck.operationLimit ++ ")" =
      "Plan has too many operations (max: 50)" := by decide
  have hsome : (planned (planId n) now t).operations.isEmpty = false := by
    rw [← Bool.not_eq_true, List.isEmpty_iff_length_eq_zero]
    omega
  have hoperations : PlanCheck.operations (planned (planId n) now t) =
      .error (.invalid "Plan has too many operations (max: 50)"
        [("plan_id", .text (planId n)), ("count", .nat t.categories.length)]) := by
    rw [PlanCheck.operations, hsome, hlength, hrule]
    simp [PlanCheck.operationLimit, hmany, PlanCheck.broken, planned]
  rw [PlanCheck.plan, htexts, hsource, hoperations]
  rfl

/-- A file that needs refactoring gets a plan, and the rules accept it exactly if the file has at
most fifty groups. Otherwise it is refused for the number of its operations. -/
theorem planFor_accepted_iff {t : TestFile} (hcurrent : t.Current) (hneeds : t.needsRefactoring)
    {tree : FileTree} (hfile : tree.exists_ t.facts.path = .ok true) (n : Nat) (now : Moment) :
    ∃ p, planFor (planId n) now t = .ok p ∧
      (PlanCheck.plan tree p = .ok () ↔ t.categories.length ≤ 50) ∧
      (50 < t.categories.length → PlanCheck.plan tree p =
        .error (.invalid "Plan has too many operations (max: 50)"
          [("plan_id", .text p.id), ("count", .nat t.categories.length)])) := by
  refine ⟨planned (planId n) now t, planFor_eq hneeds _ _, ?_, ?_⟩
  · rw [PlanCheck.plan_eq_ok_iff, acceptable_planned_iff hcurrent hneeds hfile]
  · exact plan_planned_of_many hcurrent hneeds hfile n now

def groupedTree : FileTree := { entries := [(["a.spec.ts"], .file (.bytes "test".toUTF8))] }

private theorem exists_grouped (groups : Nat) :
    groupedTree.exists_ (grouped groups).facts.path = .ok true := rfl

private theorem needsRefactoring_grouped {groups : Nat} (h : 6 < groups) :
    (grouped groups).needsRefactoring := by
  simp [TestFile.needsRefactoring, grouped, h]

theorem planFor_accepted_iff_fifty :
    (grouped 50).Current ∧ (grouped 50).needsRefactoring ∧
      groupedTree.exists_ (grouped 50).facts.path = .ok true ∧
      ∃ p, planFor (planId 1) { micros := 0 } (grouped 50) = .ok p ∧
        PlanCheck.plan groupedTree p = .ok () := by
  have hneeds : (grouped 50).needsRefactoring := needsRefactoring_grouped (by decide)
  obtain ⟨p, hp, hiff, -⟩ :=
    planFor_accepted_iff (current_grouped 50) hneeds (exists_grouped 50) 1 { micros := 0 }
  exact ⟨current_grouped 50, hneeds, exists_grouped 50, p, hp, hiff.mpr (by simp [grouped])⟩

theorem planFor_refused_fiftyOne :
    (grouped 51).Current ∧ (grouped 51).needsRefactoring ∧
      groupedTree.exists_ (grouped 51).facts.path = .ok true ∧
      ∃ p, planFor (planId 1) { micros := 0 } (grouped 51) = .ok p ∧
        PlanCheck.plan groupedTree p ≠ .ok () := by
  have hneeds : (grouped 51).needsRefactoring := needsRefactoring_grouped (by decide)
  refine ⟨current_grouped 51, hneeds, exists_grouped 51, _, planFor_eq hneeds _ _, ?_⟩
  rw [plan_planned_of_many (current_grouped 51) hneeds (exists_grouped 51) 1 _ (by simp [grouped])]
  simp

end SuiteTidy.Planning
