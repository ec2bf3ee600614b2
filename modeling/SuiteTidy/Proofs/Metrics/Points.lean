import SuiteTidy.Proofs.Number.Order
import SuiteTidy.TestFile

/-!
Points and levels. A count that exceeds a higher limit never earns fewer points, so that neither the
score nor the level goes down when counts grow. Main statement: every file can be rated, its score
is the sum of the points for its five counts, and a file that needs refactoring still does when it
has grown.
-/

set_option autoImplicit false
set_option relaxedAutoImplicit false

namespace SuiteTidy

/-! Points for a count. -/

section Table

variable {table : List (Int × Nat)}

theorem pointsFor_le {most : Nat} (h : ∀ row ∈ table, row.2 ≤ most) (n : Int) :
    pointsFor table n ≤ most := by
  induction table with
  | nil => exact Nat.zero_le most
  | cons row rest ih =>
    obtain ⟨limit, points⟩ := row
    rw [List.forall_mem_cons] at h
    rw [pointsFor]
    split_ifs
    · exact h.1
    · exact ih h.2

theorem pointsFor_mono (h : table.Pairwise fun a b => b.2 ≤ a.2) {m n : Int} (hmn : m ≤ n) :
    pointsFor table m ≤ pointsFor table n := by
  induction table with
  | nil => exact le_rfl
  | cons row rest ih =>
    obtain ⟨limit, points⟩ := row
    obtain ⟨hfirst, hrest⟩ := List.pairwise_cons.mp h
    rw [pointsFor, pointsFor]
    by_cases hm : limit < m
    · rw [if_pos hm, if_pos (hm.trans_le hmn)]
    · rw [if_neg hm]
      split_ifs
      · exact pointsFor_le hfirst m
      · exact ih hrest

end Table

instance : LE Counts where
  le c d := c.lines ≤ d.lines ∧ c.categories ≤ d.categories ∧ c.tests ≤ d.tests ∧
    c.mocks ≤ d.mocks ∧ c.hooks ≤ d.hooks

instance : DecidableLE Counts := fun c d =>
  inferInstanceAs (Decidable (c.lines ≤ d.lines ∧ c.categories ≤ d.categories ∧
    c.tests ≤ d.tests ∧ c.mocks ≤ d.mocks ∧ c.hooks ≤ d.hooks))

private theorem Counts.total_le_hundred (c : Counts) : c.factors.total ≤ 100 := by
  have hlines : c.factors.lines ≤ 30 := pointsFor_le (by decide) c.lines
  have hcategories : c.factors.categories ≤ 25 := pointsFor_le (by decide) c.categories
  have htests : c.factors.tests ≤ 20 := pointsFor_le (by decide) c.tests
  have hmocks : c.factors.mocks ≤ 15 := pointsFor_le (by decide) c.mocks
  have hhooks : c.factors.hooks ≤ 10 := pointsFor_le (by decide) c.hooks
  rw [Factors.total]
  omega

private theorem Counts.total_mono {c d : Counts} (h : c ≤ d) :
    c.factors.total ≤ d.factors.total := by
  obtain ⟨hlines, hcategories, htests, hmocks, hhooks⟩ := h
  have hlines : c.factors.lines ≤ d.factors.lines := pointsFor_mono (by decide) hlines
  have hcategories : c.factors.categories ≤ d.factors.categories :=
    pointsFor_mono (by decide) hcategories
  have htests : c.factors.tests ≤ d.factors.tests := pointsFor_mono (by decide) htests
  have hmocks : c.factors.mocks ≤ d.factors.mocks := pointsFor_mono (by decide) hmocks
  have hhooks : c.factors.hooks ≤ d.factors.hooks := pointsFor_mono (by decide) hhooks
  rw [Factors.total, Factors.total]
  omega

namespace ComplexityLevel

def rank (l : ComplexityLevel) : Nat := all.idxOf l

instance : LE ComplexityLevel where
  le a b := a.rank ≤ b.rank

private theorem ofPoints_mono {m n : Nat} (h : m ≤ n) : ofPoints m ≤ ofPoints n := by
  change (ofPoints m).rank ≤ (ofPoints n).rank
  have hsimple : simple.rank = 0 := rfl
  have hmedium : medium.rank = 1 := rfl
  have hcomplex : complex.rank = 2 := rfl
  unfold ofPoints
  split_ifs <;> omega

end ComplexityLevel

/-! Scores as numbers. -/

namespace Score

private theorem value?_counted {n : Nat} (h : n ≤ 100) :
    (counted n).number.value? = some (.ofRat n) := by
  have hall : ∀ n ∈ List.range 101, (Number.int n).same (counted n).number = true := by
    decide +kernel
  obtain ⟨v, hint, hreal⟩ := (Number.same_iff _ _).mp (hall n (List.mem_range.mpr (by omega)))
  rw [hreal, ← hint]
  rfl

private theorem atMost_counted_iff {m n : Nat} (hm : m ≤ 100) (hn : n ≤ 100) :
    (counted m).number.atMost (counted n).number = true ↔ m ≤ n := by
  rw [Number.atMost_iff, value?_counted hm, value?_counted hn]
  simp [Decimal.strictMono_ofRat.le_iff_le]

private theorem isScore_counted {n : Nat} (h : n ≤ 100) :
    Complexity.isScore (counted n).number = true := by
  have hzero : (Number.int 0).value? = some (.ofRat (0 : Nat)) := rfl
  have hhundred : (Number.int 100).value? = some (.ofRat (100 : Nat)) := rfl
  rw [Complexity.isScore, Bool.and_eq_true, Number.atMost_iff, Number.atMost_iff,
    value?_counted h, hzero, hhundred]
  simp [Decimal.strictMono_ofRat.le_iff_le, h]

end Score

namespace Complexity

private theorem rate_eq (c : Counts) : rate c = .ok (ofCounts c) :=
  if_pos (Score.isScore_counted c.total_le_hundred)

end Complexity

namespace TestFile

private theorem needsRefactoring_measured_iff (t : TestFile) :
    t.measured.needsRefactoring = true ↔
      50 ≤ t.counts.factors.total ∨ 300 < t.counts.lines ∨ 6 < t.counts.categories := by
  have hgroups : t.counts.categories = t.categories.length := rfl
  rw [hgroups, Nat.ofNat_lt_cast]
  simp [needsRefactoring, complexityNow, measured, Complexity.needsRefactoring,
    Complexity.ofCounts, Score.reaches, counts, or_assoc]

private theorem needsRefactoring_measured_mono {t u : TestFile} (h : t.counts ≤ u.counts)
    (ht : t.measured.needsRefactoring = true) : u.measured.needsRefactoring = true := by
  have htotal := Counts.total_mono h
  obtain ⟨hlines, hcategories, -⟩ := h
  rw [needsRefactoring_measured_iff] at ht ⊢
  omega

end TestFile

/-- Whatever the counts are, they are rated with a score that is the sum of the points for each and
lies between none and a hundred. Higher counts have no lower score and no lower level, and a file
with higher counts needs refactoring if one with lower counts does. -/
theorem Complexity.rate_monotone (c d : Counts) (t u : TestFile) :
    (∃ x f, rate c = .ok x ∧ x.factors = some f ∧ isScore x.score.number = true ∧
      x.score.number.value? =
        some (.ofRat (f.lines + f.categories + f.tests + f.mocks + f.hooks : Nat))) ∧
    (c ≤ d → ∃ x y, rate c = .ok x ∧ rate d = .ok y ∧
      x.score.number.atMost y.score.number = true ∧ x.level ≤ y.level) ∧
    (t.counts ≤ u.counts → t.measured.needsRefactoring = true →
      u.measured.needsRefactoring = true) := by
  have hc := c.total_le_hundred
  have hd := d.total_le_hundred
  refine ⟨⟨_, c.factors, rate_eq c, rfl, ?_, ?_⟩, fun h => ?_, fun h => ?_⟩
  · exact Score.isScore_counted hc
  · exact Score.value?_counted hc
  · have htotal := Counts.total_mono h
    exact ⟨_, _, rate_eq c, rate_eq d, (Score.atMost_counted_iff hc hd).mpr htotal,
      ComplexityLevel.ofPoints_mono htotal⟩
  · exact TestFile.needsRefactoring_measured_mono h

def TestFile.ofLength (lines : Int) : TestFile :=
  { facts := { (default : FileFacts) with totalLines := lines }, analyzedAt := default }

theorem Complexity.rate_monotone_limits :
    (⟨300, 6, 20, 3, 0⟩ : Counts) ≤ ⟨301, 7, 21, 4, 1⟩ ∧
    (∃ x y, rate ⟨300, 6, 20, 3, 0⟩ = .ok x ∧ rate ⟨301, 7, 21, 4, 1⟩ = .ok y ∧
      x.level = .simple ∧ y.level = .complex ∧
      x.score.number.atMost y.score.number = true ∧ x.level ≤ y.level) ∧
    (TestFile.ofLength 301).counts ≤ (TestFile.ofLength 400).counts ∧
    (TestFile.ofLength 301).measured.needsRefactoring = true ∧
    (TestFile.ofLength 400).measured.needsRefactoring = true := by
  have hcounts : (⟨300, 6, 20, 3, 0⟩ : Counts) ≤ ⟨301, 7, 21, 4, 1⟩ := by decide
  have hfiles : (TestFile.ofLength 301).counts ≤ (TestFile.ofLength 400).counts := by decide
  have hlong : (TestFile.ofLength 301).measured.needsRefactoring = true := by
    rw [TestFile.needsRefactoring_measured_iff]
    decide
  obtain ⟨-, hscores, hneeds⟩ := rate_monotone ⟨300, 6, 20, 3, 0⟩ ⟨301, 7, 21, 4, 1⟩
    (.ofLength 301) (.ofLength 400)
  obtain ⟨x, y, hx, hy, hscore, hlevel⟩ := hscores hcounts
  obtain rfl := Except.ok.inj ((rate_eq _).symm.trans hx)
  obtain rfl := Except.ok.inj ((rate_eq _).symm.trans hy)
  exact ⟨hcounts, ⟨_, _, hx, hy, rfl, rfl, hscore, hlevel⟩, hfiles, hlong, hneeds hfiles hlong⟩

end SuiteTidy
