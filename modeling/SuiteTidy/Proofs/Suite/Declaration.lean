import SuiteTidy.Proofs.Suite.Extent
import SuiteTidy.Proofs.Suite.Mock

/-!
Where the mock declarations of a text lie. A declaration runs to the first line with a semicolon by
which its lines have closed as many brackets of each kind as they have opened, or else to the end of
the text. Main statement: in every text the declarations that are found start on lines that declare
a mock, one behind the end of the other, and no line outside them declares one.
-/

set_option autoImplicit false
set_option relaxedAutoImplicit false

namespace SuiteTidy.Suite

/-! Where a declaration ends. -/

def AllClosed (ls : List String) : Prop :=
  tally '\x7b' ls = tally '\x7d' ls ∧ tally '(' ls = tally ')' ls ∧ tally '[' ls = tally ']' ls

/-- A declaration from one line on can end with another: all brackets are closed there, and the line
has a semicolon. -/
def CanEnd (lines : List String) (start k : Nat) : Prop :=
  AllClosed (between lines start k) ∧ ∃ line, lines[k]? = some line ∧ ';' ∈ line.toList

/-- A declaration that starts on a line ends on another: the first with which it can end, or the
last of the text if there is none. -/
def DeclarationEnds (lines : List String) (start stop : Nat) : Prop :=
  IsLeast {k | start ≤ k ∧ CanEnd lines start k} stop ∨
    (∀ k, start ≤ k → ¬CanEnd lines start k) ∧ stop + 1 = lines.length

private theorem Balance.foldl_add (ls : List String) (b : Balance) :
    ls.foldl Balance.add b =
      { braces := b.braces + tally '\x7b' ls - tally '\x7d' ls
        parens := b.parens + tally '(' ls - tally ')' ls
        squares := b.squares + tally '[' ls - tally ']' ls } := by
  induction ls generalizing b with
  | nil => simp [tally]
  | cons line ls ih =>
    rw [List.foldl_cons, ih, Balance.add, Balance.mk.injEq]
    simp only [tally_cons]
    push_cast
    omega

private theorem isLevel_foldl_iff (ls : List String) :
    (ls.foldl Balance.add {}).isLevel = true ↔ AllClosed ls := by
  rw [Balance.foldl_add, Balance.isLevel, AllClosed]
  simp only [Bool.and_eq_true, beq_iff_eq]
  omega

private theorem OneDeclaration.isFinished_take {b : Balance} {ls : List String}
    (h : OneDeclaration b ls) {k : Nat} (hk : k + 1 < ls.length) :
    isFinished b (ls.take (k + 1)) = false := by
  fun_induction OneDeclaration b ls generalizing k with
  | case1 => exact h.elim
  | case2 b line => simp at hk
  | case3 b line rest hrest ih =>
    obtain ⟨next, more, rfl⟩ := List.exists_cons_of_ne_nil hrest
    cases k with
    | zero => exact h.1
    | succ k => exact ih h.2 (by simpa using hk)

private theorem declarationSpanFrom_lt (b : Balance) {ls : List String} (hne : ls ≠ []) :
    declarationSpanFrom b ls < ls.length := by
  fun_induction declarationSpanFrom b ls with
  | case1 b => exact absurd rfl hne
  | case2 b line => simp
  | case3 b line rest hrest after hend => simp
  | case4 b line rest hrest after hend ih =>
    have hlt := ih hrest
    simp only [List.length_cons]
    omega

private theorem isFinished_take_iff {lines : List String} {start k : Nat}
    (hk : k < (lines.drop start).length) :
    isFinished {} ((lines.drop start).take (k + 1)) = true ↔ CanEnd lines start (start + k) := by
  have hlast : ((lines.drop start).take (k + 1)).getLast? = lines[start + k]? := by
    rw [List.getLast?_take, if_neg (Nat.succ_ne_zero k), Nat.add_sub_cancel,
      List.getElem?_eq_getElem hk, Option.some_or, ← List.getElem?_eq_getElem hk,
      List.getElem?_drop]
  have hlength : start + k + 1 - start = k + 1 := by omega
  rw [isFinished_iff, isLevel_foldl_iff, hlast, CanEnd, between, hlength]
  rfl

private theorem declarationEnds_span {lines : List String} {start : Nat}
    (h : start < lines.length) :
    DeclarationEnds lines start (start + declarationSpan (lines.drop start)) := by
  have hne : lines.drop start ≠ [] := by simpa using h
  obtain ⟨hone, hfinished⟩ := oneDeclaration_take {} hne
  have hlt := declarationSpanFrom_lt {} hne
  rw [← declarationSpan] at hone hfinished hlt
  have hearly : ∀ k < declarationSpan (lines.drop start), ¬CanEnd lines start (start + k) := by
    intro k hk hend
    have hopen := hone.isFinished_take (k := k) (by rw [List.length_take]; omega)
    rw [List.take_take, min_eq_left (by omega), Bool.eq_false_iff] at hopen
    exact hopen ((isFinished_take_iff (by omega)).mpr hend)
  have hstop : CanEnd lines start (start + declarationSpan (lines.drop start)) ∨
      start + declarationSpan (lines.drop start) + 1 = lines.length := by
    by_cases hmore : (lines.drop start).drop (declarationSpan (lines.drop start) + 1) = []
    · right
      rw [List.drop_eq_nil_iff, List.length_drop] at hmore
      rw [List.length_drop] at hlt
      omega
    · left
      exact (isFinished_take_iff hlt).mp (hfinished hmore)
  refine isLeast_or_last hearly hstop fun k hk => ?_
  obtain ⟨-, line, hline, -⟩ := hk
  exact (List.getElem?_eq_some_iff.mp hline).1

/-! The declarations of a text. -/

/-- A mock as its text says: it lies in the text, the line that it starts on declares it, and its
content is its lines, up to the end of the declaration. -/
structure Declared (lines : List String) (m : Mock) : Prop where
  start_le_stop : m.start ≤ m.stop
  stop_lt : m.stop < lines.length
  declares : ∃ line, lines[m.start]? = some line ∧ DeclaresMock line m.name
  content_eq : m.content = unlines (between lines m.start m.stop)
  ends : DeclarationEnds lines m.start m.stop

section Scan

variable {lines : List String}

private theorem declared_mock {first : Nat} {line name : String} {rest : List String}
    (h : line :: rest = lines.drop first) (hname : mockName? line = some name) :
    Declared lines
      { name, content := unlines ((line :: rest).take (declarationSpan (line :: rest) + 1)),
        start := first, stop := first + declarationSpan (line :: rest) } := by
  have hlt : declarationSpan (line :: rest) < (line :: rest).length :=
    declarationSpanFrom_lt {} (List.cons_ne_nil line rest)
  have hlength : (line :: rest).length = lines.length - first := by rw [h, List.length_drop]
  have hends : DeclarationEnds lines first (first + declarationSpan (line :: rest)) := by
    rw [h]
    exact declarationEnds_span (by omega)
  refine ⟨Nat.le_add_right _ _, ?_, ?_, ?_, hends⟩
  · dsimp only
    omega
  · exact ⟨line, getElem?_of_drop h, mockName?_eq_some_iff.mp hname⟩
  · dsimp only
    rw [between, ← h, show first + declarationSpan (line :: rest) + 1 - first =
      declarationSpan (line :: rest) + 1 by omega]

private theorem declared_mocksFrom (first : Nat) (ls : List String) (h : ls = lines.drop first) :
    (∀ m ∈ mocksFrom first ls, first ≤ m.start ∧ Declared lines m) ∧
      (mocksFrom first ls).Pairwise (fun a b => a.stop < b.start) ∧
      ∀ i line, first ≤ i → lines[i]? = some line →
        (∀ m ∈ mocksFrom first ls, i < m.start ∨ m.stop < i) → mockName? line = none := by
  -- Along the scan's own recursion. All three facts speak of the whole text and not of the lines
  -- that are left, so those of the later lines carry over as they are.
  fun_induction mocksFrom first ls with
  | case1 first =>
    have hend : lines.length ≤ first := List.drop_eq_nil_iff.mp h.symm
    refine ⟨by simp, List.Pairwise.nil, fun i line hi hline _ => ?_⟩
    have hlt := (List.getElem?_eq_some_iff.mp hline).1
    omega
  | case2 first line rest hname ih =>
    obtain ⟨hall, hapart, hquiet⟩ := ih (drop_behind h 0)
    refine ⟨fun m hm => ?_, hapart, fun i other hi hother hout => ?_⟩
    · obtain ⟨hstart, hdeclared⟩ := hall m hm
      exact ⟨by omega, hdeclared⟩
    · rcases Nat.eq_or_lt_of_le hi with rfl | hlater
      · rw [getElem?_of_drop h, Option.some.injEq] at hother
        rwa [← hother]
      · exact hquiet i other hlater hother hout
  | case3 first line rest name hname length ih =>
    obtain ⟨hall, hapart, hquiet⟩ := ih (drop_behind h length)
    have hdeclared := declared_mock h hname
    refine ⟨?_, ?_, fun i other hi hother hout => ?_⟩
    · intro m hm
      rcases List.mem_cons.mp hm with rfl | hm
      · exact ⟨le_rfl, hdeclared⟩
      · obtain ⟨hstart, hm⟩ := hall m hm
        exact ⟨by omega, hm⟩
    · refine List.pairwise_cons.mpr ⟨fun m hm => ?_, hapart⟩
      exact (hall m hm).1
    · rw [List.forall_mem_cons] at hout
      refine hquiet i other ?_ hother hout.2
      have hside := hout.1
      dsimp only at hside
      omega

end Scan

/-- In every text the mocks lie one behind the other, each is what its text says, and a line outside
them declares no mock. -/
theorem mocks_declared (lines : List String) :
    (mocks lines).Pairwise (fun a b => a.stop < b.start) ∧
      (∀ m ∈ mocks lines, Declared lines m) ∧
      ∀ i line, lines[i]? = some line → (∀ m ∈ mocks lines, i < m.start ∨ m.stop < i) →
        ∀ name, ¬DeclaresMock line name := by
  obtain ⟨hall, hapart, hquiet⟩ := declared_mocksFrom 0 lines (List.drop_zero).symm
  refine ⟨hapart, fun m hm => (hall m hm).2, fun i line hline hout name hdeclares => ?_⟩
  have hnone := hquiet i line (Nat.zero_le i) hline hout
  rw [mockName?_eq_some_iff.mpr hdeclares] at hnone
  cases hnone

example : (mocks ["const mockUser = \x7b", "\x7d;", "const user = 1;", "const loginTest = 2;",
      "  const fixture: User = user;", "const stubbed = 3;", "const USER_SPY = 4;",
      "const fake = 5;"]).map (fun m => (m.name, m.start, m.stop)) =
    [("mockUser", 0, 1), ("loginTest", 3, 3), ("fixture", 4, 4), ("stubbed", 5, 5),
      ("USER_SPY", 6, 6)] := by
  decide +kernel

end SuiteTidy.Suite
