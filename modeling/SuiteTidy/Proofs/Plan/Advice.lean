import SuiteTidy.Command.Practice
import SuiteTidy.Proofs.Plan.Planning

/-!
The two ways to decide what to do with a file: the advice in its record, which practice copies into
its plans, and the action that planning chooses. Both look at the groups first and then at the
tests. Before planning extracts what tests share it looks at the mocks as well, and the advice does
not. Main statement: this is the only difference.
-/

set_option autoImplicit false
set_option relaxedAutoImplicit false

namespace SuiteTidy.Practice

def planRecord (number : Nat) (source action reason : String) : Datum :=
  .record [("id", .text ("plan_" ++ toString number)), ("source_file", .text source),
    ("action", .text action), ("reason", .text reason), ("confidence", .real 0.85),
    ("priority", .int 3), ("status", .text "ready")]

theorem planFor_toDatum (number : Nat) (t : TestFile) :
    planFor number t.toDatum =
      .ok (planRecord number t.facts.path.text t.advice.word t.refactoringReason) := rfl

end SuiteTidy.Practice

namespace SuiteTidy.TestFile

theorem advice_of_needs {t : TestFile} (hneeds : t.needsRefactoring) :
    t.advice =
      if 6 < t.categories.length then .splitByCategory
      else if 20 < t.testCases.length then .splitByConcern
      else .extractShared := by
  simp [advice, hneeds]

end SuiteTidy.TestFile

namespace SuiteTidy.Planning

private theorem choose_of_needs {t : TestFile} (hneeds : t.needsRefactoring) :
    (choose t).1 =
      if 6 < t.categories.length then .splitByCategory
      else if 20 < t.testCases.length then .splitByConcern
      else if 5 < t.mockData.length then .extractShared
      else .splitByConcern := by
  unfold choose
  split_ifs <;> rfl

/-- For a file that needs refactoring, planning chooses the action that practice writes into its
plan exactly if the file has many groups, many tests or many mocks. Where they differ the file is
just long, and planning splits it by its tests while the plan of practice is to extract what they
share. -/
theorem choose_word_eq_advice_iff {t : TestFile} (hcurrent : t.Current)
    (hneeds : t.needsRefactoring) (number : Nat) :
    ∃ plan, Practice.planFor number t.toDatum = .ok plan ∧
      plan.item "action" = .ok (.text t.advice.word) ∧
      ((choose t).1.word = t.advice.word ↔
        6 < t.categories.length ∨ 20 < t.testCases.length ∨ 5 < t.mockData.length) ∧
      ((choose t).1.word ≠ t.advice.word →
        300 < t.facts.totalLines ∧ (choose t).1 = .splitByConcern ∧
          t.advice = .extractShared) := by
  refine ⟨_, Practice.planFor_toDatum number t, rfl, ?_⟩
  rw [choose_of_needs hneeds, TestFile.advice_of_needs hneeds]
  by_cases hcategories : 6 < t.categories.length
  · simp [hcategories, Action.word, Advice.word]
  by_cases htests : 20 < t.testCases.length
  · simp [hcategories, htests, Action.word, Advice.word]
  by_cases hmocks : 5 < t.mockData.length
  · simp [hcategories, htests, hmocks, Action.word, Advice.word]
  · have hlong : 300 < t.facts.totalLines := by
      have hexceeds := hcurrent.exceeds hneeds
      omega
    simp [hcategories, htests, hmocks, hlong, Action.word, Advice.word]

def longFile : TestFile :=
  { grouped 0 with facts := { (grouped 0).facts with totalLines := 301 } }

theorem choose_word_eq_advice_iff_long :
    longFile.Current ∧ longFile.needsRefactoring ∧
      (choose longFile).1.word = "split_by_concern" ∧
      ∃ plan, Practice.planFor 1 longFile.toDatum = .ok plan ∧
        plan.item "action" = .ok (.text "extract_shared") := by
  have hcurrent : longFile.Current := .inl rfl
  have hneeds : longFile.needsRefactoring := by decide
  obtain ⟨plan, hplan, haction, hiff, hdiffer⟩ := choose_word_eq_advice_iff hcurrent hneeds 1
  obtain ⟨-, hchosen, hadvice⟩ := hdiffer (mt hiff.mp (by decide))
  refine ⟨hcurrent, hneeds, by rw [hchosen]; rfl, plan, hplan, ?_⟩
  rw [haction, hadvice]
  rfl

end SuiteTidy.Planning
