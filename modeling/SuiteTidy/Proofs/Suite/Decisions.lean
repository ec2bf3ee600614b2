import SuiteTidy.Proofs.Text.Occurrence
import SuiteTidy.Suite.Source
import Mathlib.Data.List.Forall2

/-!
How many decisions a source has. No mark of a decision goes over the end of a line, so that the
decisions of a source are those of its lines. Main statement: cutting a source at the end of a line
keeps the number of decisions, and the number is the same whether the source is read as a whole or
only measured.
-/

set_option autoImplicit false
set_option relaxedAutoImplicit false

namespace SuiteTidy.Suite

open SuiteTidy.Text

def decisions (content : String) : Nat := cyclomatic content - 1

/-- What a text measures: one more than the most decisions of each kind that can be picked from it
without sharing a character. -/
def Measures (content : String) (n : Nat) : Prop :=
  ∃ counts : List Nat,
    List.Forall₂ (fun mark k => IsGreatest {i | Picks mark.toList i content.toList} k)
      decisionMarks counts ∧
    n = counts.foldr (· + ·) 0 + 1

def countAll (marks : List String) (cs : List Char) : Nat :=
  (marks.map fun m => countOf m.toList cs).foldr (· + ·) 0

def OnOneLine (mark : String) : Prop := mark.toList ≠ [] ∧ '\n' ∉ mark.toList

private theorem onOneLine_decisionMarks : ∀ m ∈ decisionMarks, OnOneLine m := by
  simp [decisionMarks, OnOneLine]

variable {marks : List String}

private theorem countAll_append_newline (h : ∀ m ∈ marks, OnOneLine m) (xs ys : List Char) :
    countAll marks (xs ++ '\n' :: ys) = countAll marks xs + countAll marks ys := by
  induction marks with
  | nil => rfl
  | cons m marks ih =>
    rw [List.forall_mem_cons] at h
    have hfirst := countOf_append_cons h.1.1 h.1.2 xs ys
    have hrest := ih h.2
    simp only [countAll, List.map_cons, List.foldr_cons] at hrest ⊢
    omega

private theorem countAll_intercalate (h : ∀ m ∈ marks, OnOneLine m) {lines : List (List Char)}
    (hne : lines ≠ []) :
    countAll marks (['\n'].intercalate lines) = (lines.map (countAll marks)).foldr (· + ·) 0 := by
  induction lines with
  | nil => exact absurd rfl hne
  | cons line lines ih =>
    cases lines with
    | nil => simp
    | cons next lines =>
      rw [List.intercalate_cons_cons, List.append_assoc, List.singleton_append,
        countAll_append_newline h, ih (List.cons_ne_nil next lines)]
      rfl

private theorem cyclomatic_eq (content : String) :
    cyclomatic content = countAll decisionMarks content.toList + 1 := rfl

private theorem decisions_eq (content : String) :
    decisions content = countAll decisionMarks content.toList := rfl

private theorem cyclomatic_append_newline (a b : String) :
    cyclomatic (a ++ "\n" ++ b) + 1 = cyclomatic a + cyclomatic b := by
  have hlist : (a ++ "\n" ++ b).toList = a.toList ++ '\n' :: b.toList := by simp
  rw [cyclomatic_eq, cyclomatic_eq, cyclomatic_eq, hlist,
    countAll_append_newline onOneLine_decisionMarks]
  omega

private theorem decisions_eq_sum_lines (content : String) :
    decisions content = ((linesOf content).map decisions).foldr (· + ·) 0 := by
  have hlines := countAll_intercalate onOneLine_decisionMarks
    (List.splitOn_ne_nil '\n' content.toList)
  rw [List.intercalate_splitOn] at hlines
  rw [decisions_eq, hlines, linesOf, splitLines, List.map_map]
  congr 1
  refine List.map_congr_left fun line _ => ?_
  rw [Function.comp_apply, decisions_eq, String.toList_ofList]

private theorem measures_iff (content : String) (n : Nat) :
    Measures content n ↔ n = cyclomatic content := by
  have hcounts : List.Forall₂ (fun mark k => IsGreatest {i | Picks mark.toList i content.toList} k)
      decisionMarks (decisionMarks.map fun m => countOf m.toList content.toList) := by
    rw [List.forall₂_map_right_iff, List.forall₂_same]
    exact fun m hm => isGreatest_countOf (onOneLine_decisionMarks m hm).1 content.toList
  constructor
  · rintro ⟨counts, hgreatest, rfl⟩
    -- The greatest number is the only one, so that no other list of counts will do.
    have hsame := List.right_unique_forall₂' (fun _ _ _ hk hl => hk.unique hl) hgreatest hcounts
    rw [hsame]
    rfl
  · rintro rfl
    exact ⟨_, hcounts, rfl⟩

/-- The number for a source adds up over its lines, and reading and measuring agree on it. -/
theorem cyclomatic_addsUp (content a b : String) :
    ((outline (a ++ "\n" ++ b)).cyclomatic : Int) =
        (outline a).cyclomatic + (outline b).cyclomatic - 1 ∧
      decisions content = ((linesOf content).map decisions).foldr (· + ·) 0 ∧
      (outline content).cyclomatic = cyclomatic content ∧
      ∀ n, Measures content n ↔ n = cyclomatic content := by
  refine ⟨?_, decisions_eq_sum_lines content, rfl, measures_iff content⟩
  have hcut : (outline (a ++ "\n" ++ b)).cyclomatic + 1 =
      (outline a).cyclomatic + (outline b).cyclomatic := cyclomatic_append_newline a b
  omega

/-- Signs in a row are counted in pairs, and the end of a line parts a pair. -/
example : cyclomatic "&&&&&" = 3 ∧ cyclomatic "&&&\n&&" = 3 ∧ cyclomatic "&\n&&&" = 2 := by decide

end SuiteTidy.Suite
