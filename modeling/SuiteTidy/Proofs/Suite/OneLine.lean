import SuiteTidy.Proofs.Suite.RoundTrip

/-!
Tests that are written on single lines. Such a test opens no brace, so its block does not end with
the line but with the text, and the tests behind it are taken for a part of it. Main statement: of a
group of such tests the first one is reported alone, and not even that one if its expression calls
for a group.
-/

set_option autoImplicit false
set_option relaxedAutoImplicit false

namespace SuiteTidy.Suite

open SuiteTidy.Text

structure OneLiner where
  name : String
  body : String
deriving Repr, DecidableEq, Inhabited

def OneLiner.line (t : OneLiner) : String := "  it('" ++ t.name ++ "', () => " ++ t.body ++ ");"

def OneLiner.isSeen (t : OneLiner) : Bool := !hasText t.body "describe("

/-- A test with a name and an expression that do not disturb a scan for tests of several lines. -/
structure OneLiner.Plain (t : OneLiner) : Prop where
  name : PlainName t.name
  no_group : ¬ "describe(".toList <:+: t.name.toList
  body : PlainLine t.body

instance (t : OneLiner) : Decidable t.Plain :=
  decidable_of_iff (PlainName t.name ∧ ¬ "describe(".toList <:+: t.name.toList ∧ PlainLine t.body)
    ⟨fun ⟨hname, hgroup, hbody⟩ => ⟨hname, hgroup, hbody⟩, fun h => ⟨h.name, h.no_group, h.body⟩⟩

def oneLineGroup (tests : List OneLiner) : List String :=
  "describe('S', () => \x7b" :: tests.map OneLiner.line ++ ["\x7d);"]

/-! What the line of a test opens. -/

section Line

variable {t : OneLiner}

private theorem OneLiner.toList_line (t : OneLiner) :
    t.line.toList = "  it(".toList ++ '\'' :: (t.name.toList ++ '\'' ::
      (", () =>".toList ++ ' ' :: (t.body.toList ++ ')' :: [';']))) := by
  simp [OneLiner.line]

private theorem OneLiner.Plain.hasText_line (h : t.Plain) :
    hasText t.line "describe(" = !t.isSeen := by
  rw [OneLiner.isSeen, Bool.not_not, Bool.eq_iff_iff, hasText_iff, hasText_iff, t.toList_line]
  constructor
  · intro hinfix
    have hd : 'd' ∈ "describe(".toList := by decide
    -- The word holds none of the marks between the parts of the line, so it stands in one part.
    rcases infix_of_append_cons (by decide) hinfix with hfront | hinfix
    · exact absurd (hfront.subset hd) (by decide)
    rcases infix_of_append_cons (by decide) hinfix with hname | hinfix
    · exact absurd hname h.no_group
    rcases infix_of_append_cons (by decide) hinfix with harrow | hinfix
    · exact absurd (harrow.subset hd) (by decide)
    rcases infix_of_append_cons (by decide) hinfix with hbody | hback
    · exact hbody
    · exact absurd (hback.subset hd) (by decide)
  · rintro ⟨before, after, hbody⟩
    refine ⟨"  it('".toList ++ t.name.toList ++ "', () => ".toList ++ before, after ++ [')', ';'],
      ?_⟩
    simp [← hbody]

private theorem OneLiner.Plain.testOpening?_line (h : t.Plain) :
    testOpening? t.line = some ⟨.test, t.name⟩ := by
  have hword : "it(".toList = 'i' :: ['t', '('] := by decide
  have hline : t.line.toList = [' ', ' '] ++ ('i' :: ['t', '('] ++ '\'' :: (t.name.toList ++ '\'' ::
      ',' :: (" () => ".toList ++ t.body.toList ++ ");".toList))) := by
    simp [OneLiner.line]
  rw [testOpening?, testName?, hword, hline,
    callLabel?_call (by decide) h.name.toList_ne_nil h.name.isQuote_eq_false]
  simp

private theorem OneLiner.Plain.opensInside_line (h : t.Plain) :
    opensInside t.line =
      if t.isSeen then some ⟨.test, t.name⟩ else describeOpening? t.line := by
  have htest : hasText t.line "it(" = true :=
    hasText_iff.mpr ⟨"  ".toList, ("'" ++ t.name ++ "', () => " ++ t.body ++ ");").toList, by
      simp [OneLiner.line]⟩
  rw [opensInside, h.hasText_line, htest, h.testOpening?_line]
  cases t.isSeen <;> rfl

private theorem OneLiner.Plain.opens_line (h : t.Plain) : opens t.line = 0 := by
  apply opens_eq_zero
  simp [OneLiner.line, h.name.not_mem, h.body.not_mem]

private theorem OneLiner.Plain.closes_line (h : t.Plain) : closes t.line = 0 := by
  apply closes_eq_zero
  simp [OneLiner.line, h.name.not_mem, h.body.not_mem]

end Line

/-! Scans that meet no brace. -/

private theorem spanFrom_unopened (balance : Int) {ls : List String} (h : ∀ l ∈ ls, opens l = 0) :
    spanFrom balance false ls = ls.length - 1 := by
  induction ls generalizing balance with
  | nil => rfl
  | cons line rest ih =>
    rw [List.forall_mem_cons] at h
    cases rest with
    | nil => rfl
    | cons next rest =>
      have hopened : (false || decide (0 < opens line)) = false := by simp [h.1]
      rw [spanFrom]
      · simp only [hopened, Bool.false_and, if_neg Bool.false_ne_true, ih _ h.2, List.length_cons,
          Nat.add_sub_cancel]
      · simp

private theorem blocksIn_eq_nil {rule : String → Option Opening} {ls : List String}
    (h : ∀ l ∈ ls, rule l = none) (budget at_ : Nat) : blocksIn rule budget at_ ls = [] := by
  induction ls generalizing budget at_ with
  | nil => rw [blocksIn]
  | cons line rest ih =>
    rw [List.forall_mem_cons] at h
    cases budget with
    | zero => rw [blocksIn]
    | succ budget => rw [blocksIn, h.1, ih h.2]

/-- A scan inside a group reports the first test that it sees among tests on single lines. A test
that is not seen is passed, or it is a group, which holds the tests behind it. -/
private theorem testCases_blocksIn_oneLiners {tests : List OneLiner} (h : ∀ t ∈ tests, t.Plain)
    {rest : List String} (hne : rest ≠ []) (hopens : ∀ l ∈ rest, opens l = 0)
    (hquiet : ∀ l ∈ rest, opensInside l = none) {budget : Nat} (hbudget : tests.length ≤ budget)
    (at_ : Nat) :
    testCases (blocksIn opensInside budget at_ (tests.map OneLiner.line ++ rest)) =
      ((tests.filter OneLiner.isSeen).map OneLiner.name).take 1 := by
  induction tests generalizing budget at_ with
  | nil => simp [blocksIn_eq_nil hquiet, testCases]
  | cons t ts ih =>
    rw [List.forall_mem_cons] at h
    obtain ⟨budget, rfl⟩ : ∃ n, budget = n + 1 := ⟨budget - 1, by simp at hbudget; omega⟩
    have hlines : ∀ l ∈ t.line :: (ts.map OneLiner.line ++ rest), opens l = 0 := by
      intro l hl
      simp only [List.mem_cons, List.mem_append, List.mem_map] at hl
      rcases hl with rfl | ⟨u, hu, rfl⟩ | hl
      · exact h.1.opens_line
      · exact (h.2 u hu).opens_line
      · exact hopens l hl
    have hspan : span (t.line :: (ts.map OneLiner.line ++ rest)) = ts.length + rest.length := by
      rw [span, spanFrom_unopened 0 hlines]
      simp
    have hpos : 0 < rest.length := List.length_pos_iff.mpr hne
    have hdrop : (ts.map OneLiner.line ++ rest).drop (ts.length + rest.length) = [] := by simp
    rw [List.map_cons, List.cons_append, blocksIn, h.1.opensInside_line]
    cases hseen : t.isSeen with
    | true => simp [hspan, hdrop, testCases, testCasesOf, blocksIn, hseen]
    | false =>
      simp only [Bool.false_eq_true, if_false, List.filter_cons, hseen]
      cases hgroup : describeOpening? t.line with
      | none => exact ih h.2 (by simp at hbudget; omega) (at_ + 1)
      | some opening =>
        have hkind : opening.kind = .describe := by
          obtain ⟨name, -, rfl⟩ := Option.map_eq_some_iff.mp hgroup
          rfl
        have hinside : ts.length ≤ ts.length + rest.length - 1 := by omega
        have hinner := ih h.2 hinside (at_ + 1)
        simp [hspan, hdrop, hkind, testCases, testCasesOf, blocksIn, hinner]

/-! A group of tests on single lines. -/

private theorem steady_oneLiners {tests : List OneLiner} (h : ∀ t ∈ tests, t.Plain) :
    Steady (tests.map OneLiner.line) := by
  induction tests with
  | nil => exact Steady.nil
  | cons t ts ih =>
    rw [List.forall_mem_cons] at h
    have hline : Steady [t.line] := Steady.line h.1.opens_line h.1.closes_line
    exact hline.append (ih h.2)

private theorem testCases_blocks_oneLineGroup {tests : List OneLiner} (h : ∀ t ∈ tests, t.Plain)
    (n : Nat) :
    testCases (blocks (oneLineGroup tests ++ List.replicate n "")) =
      ((tests.filter OneLiner.isSeen).map OneLiner.name).take 1 := by
  let rest : List String := "\x7d);" :: List.replicate n ""
  have hrest : ∀ l ∈ rest, opens l = 0 ∧ opensInside l = none ∧ opensAtTop l = none := by
    intro l hl
    rcases List.mem_cons.mp hl with rfl | hl
    · decide
    · rw [List.eq_of_mem_replicate hl]
      decide
  have hopening : opensAtTop "describe('S', () => \x7b" = some ⟨.describe, "S"⟩ := by decide
  have henclosed : Enclosed "describe('S', () => \x7b" (tests.map OneLiner.line) "\x7d);" :=
    ⟨by decide, by decide, steady_oneLiners h, by decide, by decide⟩
  have hlines : oneLineGroup tests ++ List.replicate n "" =
      "describe('S', () => \x7b" :: (tests.map OneLiner.line ++ rest) := by
    simp [oneLineGroup, rest]
  have hspan : span ("describe('S', () => \x7b" :: (tests.map OneLiner.line ++ rest)) =
      tests.length + 1 := by
    simpa [rest] using henclosed.span_append (List.replicate n "")
  have hinner := testCases_blocksIn_oneLiners h (List.cons_ne_nil _ _) (fun l hl => (hrest l hl).1)
    (fun l hl => (hrest l hl).2.1) (le_refl tests.length) 1
  have hbehind : ∀ l ∈ (tests.map OneLiner.line ++ rest).drop (tests.length + 1),
      opensAtTop l = none := by
    intro l hl
    rw [List.drop_append, List.drop_of_length_le (by simp)] at hl
    exact (hrest l (List.mem_of_mem_drop hl)).2.2
  rw [blocks, hlines, List.length_cons, blocksIn]
  simp [hopening, hspan, testCases, testCasesOf, blocksIn_eq_nil hbehind, hinner, rest]

private theorem take_one_eq_names_iff {tests : List OneLiner} :
    ((tests.filter OneLiner.isSeen).map OneLiner.name).take 1 = tests.map OneLiner.name ↔
      tests.length ≤ 1 ∧ ∀ t ∈ tests, t.isSeen = true := by
  rcases tests with _ | ⟨t, _ | ⟨u, ts⟩⟩
  · simp
  · cases hseen : t.isSeen <;> simp [hseen]
  · constructor
    · intro hsame
      have hlength := congrArg List.length hsame
      simp at hlength
      omega
    · intro hshort
      simp at hshort

private theorem newline_not_mem_oneLineGroup {tests : List OneLiner} (h : ∀ t ∈ tests, t.Plain)
    (n : Nat) : ∀ l ∈ oneLineGroup tests ++ List.replicate n "", '\n' ∉ l.toList := by
  intro l hl
  simp only [oneLineGroup, List.cons_append, List.append_assoc, List.mem_cons, List.mem_append,
    List.mem_map, List.not_mem_nil, false_or] at hl
  rcases hl with rfl | ⟨t, ht, rfl⟩ | rfl | hl
  · decide
  · simp [OneLiner.line, (h t ht).name.not_mem, (h t ht).body.not_mem]
  · decide
  · rw [List.eq_of_mem_replicate hl]
    decide

/-- Of a group of tests on single lines, with any number of empty lines behind it, the first test
whose expression does not call for a group is reported, and no other. So all are reported exactly if
there is at most one, and it is seen. -/
theorem testCases_oneLineGroup {tests : List OneLiner} (h : ∀ t ∈ tests, t.Plain) (n : Nat) :
    (outline (unlines (oneLineGroup tests ++ List.replicate n ""))).testCases =
        ((tests.filter OneLiner.isSeen).map OneLiner.name).take 1 ∧
      ((outline (unlines (oneLineGroup tests ++ List.replicate n ""))).testCases =
          tests.map OneLiner.name ↔
        tests.length ≤ 1 ∧ ∀ t ∈ tests, t.isSeen = true) := by
  have hlines : linesOf (unlines (oneLineGroup tests ++ List.replicate n "")) =
      oneLineGroup tests ++ List.replicate n "" :=
    linesOf_unlines (by simp [oneLineGroup]) (newline_not_mem_oneLineGroup h n)
  have hfirst : (outline (unlines (oneLineGroup tests ++ List.replicate n ""))).testCases =
      ((tests.filter OneLiner.isSeen).map OneLiner.name).take 1 := by
    rw [Outline.testCases, outline, hlines, testCases_blocks_oneLineGroup h]
  exact ⟨hfirst, by rw [hfirst, take_one_eq_names_iff]⟩

/-- Three tests, the first of which calls for a group without a name. -/
def terse : List OneLiner :=
  [⟨"loads", "describe(all)"⟩, ⟨"saves it(", "expect(save('a', 1)).toBe(2)"⟩,
    ⟨"clears", "expect(clear())"⟩]

theorem testCases_oneLineGroup_terse :
    (∀ t ∈ terse, t.Plain) ∧
      (outline (unlines (oneLineGroup terse ++ List.replicate 1 ""))).testCases = ["saves it("] :=
  have hplain : ∀ t ∈ terse, t.Plain := by decide
  ⟨hplain, (testCases_oneLineGroup hplain 1).1.trans (by decide)⟩

end SuiteTidy.Suite
