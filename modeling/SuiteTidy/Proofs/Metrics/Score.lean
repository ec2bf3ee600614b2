import SuiteTidy.Metrics.Smell
import Mathlib.Tactic.SplitIfs

/-!
Scores out of a hundred. A file is always judged, and both its scores are whole numbers up to a
hundred.
-/

set_option autoImplicit false
set_option relaxedAutoImplicit false

namespace SuiteTidy

private theorem TestFile.length_qualitySmells_le (t : TestFile) : t.qualitySmells.length ≤ 6 := by
  have hone : ∀ (p : Prop) [Decidable p] (name : String),
      (if p then [name] else []).length ≤ 1 := by
    intro p _ name
    split_ifs <;> simp
  have hlong := hone (t.facts.totalLines > 500) "long_test_file"
  have hgroups := hone (t.categories.length > 10) "too_many_categories"
  have htests := hone (t.testCases.length > 30) "too_many_test_cases"
  have hflat := hone (t.categories.isEmpty ∧ t.testCases.length > 10) "no_categories"
  have hmocks := hone (t.mockData.length > 10) "mock_overload"
  have hbare := hone (!t.mockData.isEmpty ∧ t.setupHooks.isEmpty) "no_setup_with_mocks"
  simp only [TestFile.qualitySmells, List.length_append]
  omega

namespace Quality

def evidence (smells : Nat) (untested structured setUp : Bool) (decisions : Nat) : Evidence :=
  { assertionRatio := if untested then .real 0.0 else .real 1.0, hasStructure := structured,
    cyclomatic := .int decisions, hasSetup := setUp, smells := .int smells }

def points (smells : Nat) (untested structured setUp : Bool) (decisions : Nat) : Nat :=
  min 100 (100 + (if structured then 10 else 0) + (if setUp then 5 else 0) - 5 * smells -
    (if untested then 30 else 0) -
    (if 100 < decisions then 30 else if 50 < decisions then 15 else 0))

def realScore? : Except Fault Quality → Option Float
  | .ok { score := .real x, .. } => some x
  | _ => none

private theorem eq_ok_of_realScore? {r : Except Fault Quality} {x : Float}
    (h : realScore? r = some x) : ∃ level, r = .ok { score := .real x, level } := by
  unfold realScore? at h
  split at h
  · rename_i y level
    exact ⟨level, by rw [Option.some.inj h]⟩
  · cases h

/-- A number of decisions on the same side of both limits. -/
def sameSide (decisions : Nat) : Nat :=
  if 100 < decisions then 101 else if 50 < decisions then 51 else 0

private theorem judge_congr {e : Evidence} {c : Number}
    (hmany : (Number.int 100).less e.cyclomatic = (Number.int 100).less c)
    (hsome : (Number.int 50).less e.cyclomatic = (Number.int 50).less c) :
    judge e = judge { e with cyclomatic := c } := by
  unfold judge rawScore
  rw [hmany, hsome]

private theorem judge_sameSide (smells : Nat) (untested structured setUp : Bool) (decisions : Nat) :
    judge (evidence smells untested structured setUp decisions) =
      judge (evidence smells untested structured setUp (sameSide decisions)) := by
  have hless : ∀ limit : Nat, limit = 100 ∨ limit = 50 →
      (Number.int limit).less (.int decisions) =
        (Number.int limit).less (.int (sameSide decisions : Nat)) := by
    intro limit hlimit
    rw [Number.less, Number.less, decide_eq_decide]
    unfold sameSide
    split_ifs <;> omega
  exact judge_congr (hless 100 (.inl rfl)) (hless 50 (.inr rfl))

private theorem points_sameSide (smells : Nat) (untested structured setUp : Bool)
    (decisions : Nat) :
    points smells untested structured setUp decisions =
      points smells untested structured setUp (sameSide decisions) := by
  have hlost : (if 100 < decisions then 30 else if 50 < decisions then 15 else 0) =
      (if 100 < sameSide decisions then 30 else if 50 < sameSide decisions then 15 else 0) := by
    unfold sameSide
    split_ifs <;> omega
  rw [points, points, hlost]

private theorem judge_checked :
    ∀ smells ∈ List.range 7, ∀ untested ∈ [false, true], ∀ structured ∈ [false, true],
      ∀ setUp ∈ [false, true], ∀ decisions ∈ [0, 51, 101],
        realScore? (judge (evidence smells untested structured setUp decisions)) =
          some (points smells untested structured setUp decisions).toFloat := by
  decide +kernel

private theorem judge_evidence {smells : Nat} (hsmells : smells ≤ 6)
    (untested structured setUp : Bool) (decisions : Nat) :
    ∃ level, judge (evidence smells untested structured setUp decisions) = .ok
      { score := .real (points smells untested structured setUp decisions).toFloat, level } := by
  have hbool : ∀ b : Bool, b ∈ [false, true] := by
    intro b
    cases b <;> simp
  have hside : sameSide decisions ∈ [0, 51, 101] := by
    unfold sameSide
    split_ifs <;> simp
  apply eq_ok_of_realScore?
  rw [judge_sameSide, points_sameSide]
  exact judge_checked smells (List.mem_range.mpr (by omega)) untested (hbool _) structured (hbool _)
    setUp (hbool _) _ hside

private theorem points_le_hundred (smells : Nat) (untested structured setUp : Bool)
    (decisions : Nat) :
    points smells untested structured setUp decisions ≤ 100 := Nat.min_le_left _ _

end Quality

theorem TestFile.judgedQuality_eq (t : TestFile) (decisions : Nat) :
    ∃ n level, n ≤ 100 ∧
      t.judgedQuality (.int decisions) (.int t.qualitySmells.length) =
        .ok { score := .real n.toFloat, level } := by
  obtain ⟨level, hjudged⟩ := Quality.judge_evidence t.length_qualitySmells_le t.testCases.isEmpty
    (!t.categories.isEmpty) (!t.setupHooks.isEmpty) decisions
  exact ⟨_, level, Quality.points_le_hundred _ _ _ _ _, hjudged⟩

end SuiteTidy
