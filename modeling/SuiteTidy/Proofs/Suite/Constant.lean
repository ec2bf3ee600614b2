import SuiteTidy.Proofs.Suite.Scan
import SuiteTidy.Suite.Mock
import Mathlib.Data.List.TakeWhile

/-!
The lines that declare a mock. Main statement: the name that is read from a line is that of a
declaration in the line, and every declaration of a constant is read.
-/

set_option autoImplicit false
set_option relaxedAutoImplicit false

namespace SuiteTidy.Text

private theorem exists_run_of_inRuns {runs : List (Nat × Nat)} {n : Nat}
    (h : inRuns runs n = true) : ∃ run ∈ runs, run.1 ≤ n ∧ n ≤ run.2 := by
  induction runs with
  | nil => cases h
  | cons run runs ih =>
    rw [inRuns] at h
    split_ifs at h with hbelow habove
    · exact ⟨run, List.mem_cons_self, by omega, habove⟩
    · obtain ⟨other, hmem, hrun⟩ := ih h
      exact ⟨other, List.mem_cons_of_mem run hmem, hrun⟩

private def allWordRuns : List (Nat × Nat) :=
  (48, 57) :: (65, 90) :: (95, 95) :: (97, 122) :: wordRuns

private theorem exists_run_of_isWord {c : Char} (h : isWord c = true) :
    ∃ run ∈ allWordRuns, run.1 ≤ c.toNat ∧ c.toNat ≤ run.2 := by
  rw [isWord, Bool.or_eq_true, Bool.or_eq_true, beq_iff_eq] at h
  rcases h with (halnum | rfl) | hmore
  · rcases Bool.or_eq_true_iff.mp halnum with hletter | hdigit
    · rcases Bool.or_eq_true_iff.mp hletter with hupper | hlower
      · exact ⟨(65, 90), by simp [allWordRuns], of_decide_eq_true hupper⟩
      · obtain ⟨hlow, hhigh⟩ := Bool.and_eq_true_iff.mp hlower
        exact ⟨(97, 122), by simp [allWordRuns], of_decide_eq_true hlow, of_decide_eq_true hhigh⟩
    · obtain ⟨hlow, hhigh⟩ := Bool.and_eq_true_iff.mp hdigit
      exact ⟨(48, 57), by simp [allWordRuns], of_decide_eq_true hlow, of_decide_eq_true hhigh⟩
  · exact ⟨(95, 95), by simp [allWordRuns], by decide⟩
  · obtain ⟨run, hmem, hrun⟩ := exists_run_of_inRuns hmore
    exact ⟨run, by simp [allWordRuns, hmem], hrun⟩

theorem isWord_eq_false_of_isBlank {c : Char} (h : isBlank c = true) : isWord c = false := by
  have hapart : ∀ blank ∈ blankRuns, ∀ word ∈ allWordRuns, blank.2 < word.1 ∨ word.2 < blank.1 := by
    decide +kernel
  rw [Bool.eq_false_iff]
  intro hword
  obtain ⟨blank, hblank, hlow, hhigh⟩ := exists_run_of_inRuns h
  obtain ⟨word, hmem, hlow', hhigh'⟩ := exists_run_of_isWord hword
  have hsides := hapart blank hblank word hmem
  omega

theorem isBlank_eq_false_of_isWord {c : Char} (h : isWord c = true) : isBlank c = false := by
  rw [Bool.eq_false_iff]
  intro hblank
  rw [isWord_eq_false_of_isBlank hblank] at h
  cases h

end SuiteTidy.Text

namespace SuiteTidy.Suite

open SuiteTidy.Text

/-- A line that declares a constant: the word `const` behind blanks, one blank or more, the name,
which is made of word characters, and behind blanks a colon or an equals sign. -/
def DeclaresConstant (line name : String) : Prop :=
  ∃ (before gap after rest : List Char) (mark : Char),
    line.toList = before ++ ("const".toList ++ (gap ++ (name.toList ++ (after ++ mark :: rest)))) ∧
    (∀ c ∈ before, isBlank c = true) ∧ gap ≠ [] ∧ (∀ c ∈ gap, isBlank c = true) ∧
    name.toList ≠ [] ∧ (∀ c ∈ name.toList, isWord c = true) ∧ (∀ c ∈ after, isBlank c = true) ∧
    (mark = ':' ∨ mark = '=')

/-- A name that starts or ends with one of the words for mock data, in any case. -/
def MarksMock (name : String) : Prop :=
  ∃ word ∈ mockWords, word.toList <+: lower name.toList ∨ word.toList <:+ lower name.toList

def DeclaresMock (line name : String) : Prop := DeclaresConstant line name ∧ MarksMock name

theorem isMockName_iff {name : String} : isMockName name = true ↔ MarksMock name := by
  simp only [isMockName, MarksMock, endsWith, List.any_eq_true, Bool.or_eq_true, startsWith_iff,
    List.reverse_prefix]

section Blank

variable {pad rest : List Char}

theorem trimLeft_append (hpad : ∀ c ∈ pad, isBlank c = true)
    (hrest : ∀ c ∈ rest.head?, isBlank c = false) : trimLeft (pad ++ rest) = rest := by
  rw [trimLeft, List.dropWhile_append_of_pos hpad, List.dropWhile_eq_self_iff]
  intro hlength
  have hfirst : rest.head? = some rest[0] := by
    rw [List.head?_eq_getElem?, List.getElem?_eq_getElem hlength]
  exact Bool.eq_false_iff.mp (hrest rest[0] hfirst)

private theorem exists_blanks (cs : List Char) :
    ∃ pad, cs = pad ++ trimLeft cs ∧ ∀ c ∈ pad, isBlank c = true :=
  ⟨cs.takeWhile isBlank, List.takeWhile_append_dropWhile.symm,
    fun _ hc => List.mem_takeWhile_imp hc⟩

end Blank

private theorem declaresConstant_of_constantName? {line name : String}
    (h : constantName? line = some name) : DeclaresConstant line name := by
  unfold constantName? at h
  obtain ⟨tail, htail, h⟩ := Option.bind_eq_some_iff.mp h
  rw [afterStart?_eq_some_iff] at htail
  dsimp only at h
  split_ifs at h with hfound
  obtain rfl := Option.some.inj h
  obtain ⟨hshort, hname, hmark⟩ := hfound
  obtain ⟨before, hline, hbefore⟩ := exists_blanks line.toList
  obtain ⟨gap, hgap, hblank⟩ := exists_blanks tail
  obtain ⟨after, hafter, hblank'⟩ := exists_blanks ((trimLeft tail).dropWhile isWord)
  obtain ⟨mark, rest, hrest, hmark⟩ : ∃ mark rest,
      trimLeft ((trimLeft tail).dropWhile isWord) = mark :: rest ∧ (mark = ':' ∨ mark = '=') := by
    cases hlast : trimLeft ((trimLeft tail).dropWhile isWord) with
    | nil => simp [hlast] at hmark
    | cons mark rest => exact ⟨mark, rest, rfl, by simpa [hlast] using hmark⟩
  have hofList := String.toList_ofList (l := (trimLeft tail).takeWhile isWord)
  refine ⟨before, gap, after, rest, mark, ?_, hbefore, ?_, hblank, ?_, ?_, hblank', hmark⟩
  · calc line.toList = before ++ trimLeft line.toList := hline
      _ = before ++ ("const".toList ++ (gap ++ trimLeft tail)) := by rw [htail, ← hgap]
      _ = before ++ ("const".toList ++ (gap ++ ((trimLeft tail).takeWhile isWord ++
            (trimLeft tail).dropWhile isWord))) := by rw [List.takeWhile_append_dropWhile]
      _ = _ := by rw [hofList, ← hrest, ← hafter]
  · rintro rfl
    rw [List.nil_append] at hgap
    rw [← hgap] at hshort
    omega
  · rwa [hofList]
  · rw [hofList]
    intro c hc
    exact List.mem_takeWhile_imp hc

private theorem constantName?_of_declaresConstant {line name : String}
    (h : DeclaresConstant line name) : constantName? line = some name := by
  obtain ⟨before, gap, after, rest, mark, hline, hbefore, hgap, hblank, hname, hword, hblank',
    hmark⟩ := h
  have hplain : isBlank mark = false ∧ isWord mark = false := by
    rcases hmark with rfl | rfl <;> decide
  have htail : trimLeft line.toList =
      "const".toList ++ (gap ++ (name.toList ++ (after ++ mark :: rest))) := by
    rw [hline]
    exact trimLeft_append hbefore (by simp; decide)
  have hbody : trimLeft (gap ++ (name.toList ++ (after ++ mark :: rest))) =
      name.toList ++ (after ++ mark :: rest) := by
    refine trimLeft_append hblank fun c hc => ?_
    rw [List.head?_append_of_ne_nil _ hname] at hc
    exact isBlank_eq_false_of_isWord (hword c (List.mem_of_mem_head? hc))
  -- The name is not longer than the word in front of the blanks or the mark.
  have hstop : (after ++ mark :: rest).takeWhile isWord = [] := by
    cases after with
    | nil => simp [hplain.2]
    | cons c after => simp [isWord_eq_false_of_isBlank (hblank' c List.mem_cons_self)]
  have htake : (name.toList ++ (after ++ mark :: rest)).takeWhile isWord = name.toList := by
    rw [List.takeWhile_append_of_pos hword, hstop, List.append_nil]
  have hdrop :
      (name.toList ++ (after ++ mark :: rest)).dropWhile isWord = after ++ mark :: rest := by
    have hsplit :=
      List.takeWhile_append_dropWhile (p := isWord) (l := name.toList ++ (after ++ mark :: rest))
    rw [htake] at hsplit
    exact List.append_cancel_left hsplit
  have hlast : trimLeft (after ++ mark :: rest) = mark :: rest :=
    trimLeft_append hblank' (by simp [hplain.1])
  have hlength : 0 < gap.length := List.length_pos_iff.mpr hgap
  unfold constantName?
  rw [afterStart?_eq_some_iff.mpr htail]
  simp only [Option.bind_eq_bind, Option.bind_some, hbody, htake, hdrop, hlast]
  rw [if_pos ⟨by simp; omega, hname, by simpa using hmark⟩, String.ofList_toList]

theorem mockName?_eq_some_iff {line name : String} :
    mockName? line = some name ↔ DeclaresMock line name := by
  rw [mockName?, Option.filter_eq_some_iff, isMockName_iff, DeclaresMock]
  exact and_congr_left fun _ =>
    ⟨declaresConstant_of_constantName?, constantName?_of_declaresConstant⟩

end SuiteTidy.Suite
