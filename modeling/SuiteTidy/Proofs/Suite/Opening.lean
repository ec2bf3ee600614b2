import SuiteTidy.Proofs.Suite.Nesting

/-!
What a line opens inside a group and outside all groups. Outside, a comment opens nothing and every
kind of block is looked for; inside, the first word that occurs decides, on comments too. Main
statement: a line with a call that opens a block opens the same block at both places, or none,
exactly if it is a comment on which another word masks the call, or neither.
-/

set_option autoImplicit false
set_option relaxedAutoImplicit false

namespace SuiteTidy.Suite

open SuiteTidy.Text

/-! The block of a line. -/

def blockAt? (rule : String → Option Opening) (lines : List String) (i : Nat) : Option Block :=
  (blocksIn rule 1 i (lines.drop i)).head?

def blockFrom (lines : List String) (i : Nat) (opening : Opening) : Block :=
  { opening
    start := i
    stop := i + span (lines.drop i)
    content := unlines ((lines.drop i).take (span (lines.drop i) + 1))
    children :=
      if opening.kind = .describe then
        blocksIn opensInside (span (lines.drop i) - 1) (i + 1) (lines.drop (i + 1))
      else [] }

section Scan

variable {lines : List String} {rule : String → Option Opening} {i : Nat} {line : String}

-- The rule is asked about the line alone: what the block holds is scanned by the rule for groups.
private theorem blockAt?_eq_map (h : lines[i]? = some line) :
    blockAt? rule lines i = (rule line).map (blockFrom lines i) := by
  obtain ⟨hi, hline⟩ := List.getElem?_eq_some_iff.mp h
  have hdrop : lines.drop i = line :: lines.drop (i + 1) := by
    rw [← hline, List.getElem_cons_drop]
  rw [blockAt?, hdrop, blocksIn]
  cases hrule : rule line with
  | none => simp [blocksIn_zero]
  | some opening => simp [blockFrom, hdrop]

private theorem blockAt?_of_mem_blocksIn (budget first : Nat) (ls : List String)
    (h : ls = lines.drop first) :
    (∀ b ∈ blocksIn rule budget first ls, blockAt? rule lines b.start = some b) ∧
      ∀ b ∈ allBlocks (blocksIn rule budget first ls), ∀ c ∈ b.children,
        blockAt? opensInside lines c.start = some c := by
  fun_induction blocksIn rule budget first ls with
  | case1 rule budget first => simp [allBlocks_nil]
  | case2 rule first line rest => simp [allBlocks_nil]
  | case3 rule first line rest budget hrule ih => exact ih (drop_behind h 0)
  | case4 rule first line rest budget opening hrule length ihinner ihrest =>
    have hrest : rest = lines.drop (first + 1) := drop_behind h 0
    obtain ⟨hinner, hdeeper⟩ := ihinner hrest
    obtain ⟨hrow, hbelow⟩ := ihrest (drop_behind h length)
    constructor
    · intro b hb
      rcases List.mem_cons.mp hb with rfl | hb
      · rw [blockAt?_eq_map (getElem?_of_drop h), hrule, Option.map_some, blockFrom, ← h, ← hrest]
      · exact hrow b hb
    · intro b hb c hc
      rcases mem_allBlocks_cons.mp hb with rfl | hb | hb
      · dsimp only at hc
        split_ifs at hc
        · exact hinner c hc
        · cases hc
      · dsimp only at hb
        split_ifs at hb
        · exact hdeeper b hb c hc
        · simp [allBlocks_nil] at hb
      · exact hbelow b hb c hc

end Scan

/-! The calls on a line. -/

def Calls (line : String) : Prop :=
  describeName? line ≠ none ∨ testName? line ≠ none ∨ hook? line ≠ none

/-- A line with a call that opens a block, behind the word of a kind that is looked for earlier and
that nothing on the line opens. -/
def Masked (line : String) : Prop :=
  hasText line "describe(" = true ∧ describeName? line = none ∧
      (testName? line ≠ none ∨ hook? line ≠ none) ∨
    hasText line "describe(" = false ∧ hasText line "it(" = true ∧ testName? line = none ∧
      hook? line ≠ none

instance (line : String) : Decidable (Calls line) :=
  inferInstanceAs (Decidable (_ ∨ _ ∨ _))

instance (line : String) : Decidable (Masked line) :=
  inferInstanceAs (Decidable (_ ∧ _ ∧ (_ ∨ _) ∨ _ ∧ _ ∧ _ ∧ _))

section Line

variable {line : String}

private theorem describeName?_eq_none (h : hasText line "describe(" = false) :
    describeName? line = none := by
  rw [describeName?, Option.map_eq_none_iff, Option.eq_none_iff_forall_ne_some]
  intro name hname
  rw [Bool.eq_false_iff, ne_eq, hasText_iff] at h
  exact h (infix_of_callLabel?_eq_some hname)

private theorem testName?_eq_none (h : hasText line "it(" = false) : testName? line = none := by
  rw [testName?, Option.map_eq_none_iff, Option.eq_none_iff_forall_ne_some]
  intro name hname
  rw [Bool.eq_false_iff, ne_eq, hasText_iff] at h
  exact h (infix_of_callLabel?_eq_some hname)

private theorem opensAtTop_ne_none_iff :
    opensAtTop line ≠ none ↔ isCommentLine line = false ∧ Calls line := by
  cases hcomment : isCommentLine line with
  | true => simp [opensAtTop, hcomment]
  | false =>
    rw [opensAtTop, hcomment, if_neg Bool.false_ne_true]
    simp only [describeOpening?, testOpening?, hookOpening?, ne_eq, Option.or_eq_none_iff,
      Option.map_eq_none_iff, not_and_or, Calls, true_and]

-- A word that does not occur opens nothing, so the first word that occurs leaves one kind to look
-- for.
private theorem opensInside_ne_none_iff : opensInside line ≠ none ↔ Calls line ∧ ¬Masked line := by
  cases hdescribe : hasText line "describe(" with
  | true =>
    rw [opensInside, if_pos hdescribe, describeOpening?, ne_eq, Option.map_eq_none_iff]
    by_cases hgroup : describeName? line = none
    · simp [Calls, Masked, hdescribe, hgroup, or_iff_not_imp_left]
    · simp [Calls, Masked, hdescribe, hgroup]
  | false =>
    have hgroup := describeName?_eq_none hdescribe
    rw [opensInside, hdescribe, if_neg Bool.false_ne_true]
    cases htest : hasText line "it(" with
    | true =>
      rw [if_pos rfl, testOpening?, ne_eq, Option.map_eq_none_iff]
      by_cases hcase : testName? line = none
      · simp [Calls, Masked, hdescribe, htest, hgroup, hcase]
      · simp [Calls, Masked, hdescribe, hcase]
    | false =>
      have hcase := testName?_eq_none htest
      rw [if_neg Bool.false_ne_true, hookOpening?, ne_eq, Option.map_eq_none_iff]
      simp [Calls, Masked, hdescribe, htest, hgroup, hcase]

private theorem opensAtTop_of_opensInside {opening : Opening}
    (hcomment : isCommentLine line = false) (h : opensInside line = some opening) :
    opensAtTop line = some opening := by
  rw [opensAtTop, hcomment, if_neg Bool.false_ne_true]
  cases hdescribe : hasText line "describe(" with
  | true =>
    rw [opensInside, if_pos hdescribe] at h
    rw [h, Option.some_or]
  | false =>
    have hgroup : describeOpening? line = none := by
      rw [describeOpening?, describeName?_eq_none hdescribe, Option.map_none]
    rw [hgroup, Option.none_or]
    cases htest : hasText line "it(" with
    | true =>
      rw [opensInside, hdescribe, if_neg Bool.false_ne_true, if_pos htest] at h
      rw [h, Option.some_or]
    | false =>
      rw [opensInside, hdescribe, htest, if_neg Bool.false_ne_true, if_neg Bool.false_ne_true] at h
      rw [testOpening?, testName?_eq_none htest, Option.map_none, Option.none_or, h]

private theorem opensInside_eq_opensAtTop_iff :
    opensInside line = opensAtTop line ↔
      (Calls line → (isCommentLine line = true ↔ Masked line)) := by
  cases hopen : opensInside line with
  | none =>
    have hmasked : Calls line → Masked line := by
      intro hcalls
      by_contra hclear
      exact opensInside_ne_none_iff.mpr ⟨hcalls, hclear⟩ hopen
    rw [eq_comm, ← not_ne_iff, opensAtTop_ne_none_iff, ← Bool.not_eq_true]
    constructor
    · intro hhidden hcalls
      exact iff_of_true (by_contra fun hplain => hhidden ⟨hplain, hcalls⟩) (hmasked hcalls)
    · rintro hsame ⟨hplain, hcalls⟩
      exact hplain ((hsame hcalls).mpr (hmasked hcalls))
  | some opening =>
    obtain ⟨hcalls, hclear⟩ := opensInside_ne_none_iff.mp (by rw [hopen]; simp)
    cases hcomment : isCommentLine line with
    | true =>
      have htop : opensAtTop line = none := by
        by_contra hopens
        rw [← ne_eq, opensAtTop_ne_none_iff, hcomment] at hopens
        exact Bool.false_ne_true hopens.1.symm
      simp [htop, hcalls, hclear]
    | false => simp [opensAtTop_of_opensInside hcomment hopen, hclear]

end Line

/-- The blocks of a text are those that scans of single lines find, by the rule for groups inside
them and by the other one outside. The rules find the same block on a line, if both find one.
Outside groups there is one unless the line is a comment, inside unless it is masked, so that they
agree on a line exactly if it opens nothing at all, or is a comment and masked, or neither. -/
theorem blockAt?_inside_eq_top_iff (lines : List String) :
    (∀ b ∈ blocks lines, blockAt? opensAtTop lines b.start = some b) ∧
    (∀ b ∈ allBlocks (blocks lines), ∀ c ∈ b.children,
      blockAt? opensInside lines c.start = some c) ∧
    ∀ i line, lines[i]? = some line →
      (blockAt? opensAtTop lines i ≠ none ↔ isCommentLine line = false ∧ Calls line) ∧
      (blockAt? opensInside lines i ≠ none ↔ Calls line ∧ ¬Masked line) ∧
      (∀ b c, blockAt? opensInside lines i = some b → blockAt? opensAtTop lines i = some c →
        b = c) ∧
      (blockAt? opensInside lines i = blockAt? opensAtTop lines i ↔
        (Calls line → (isCommentLine line = true ↔ Masked line))) := by
  obtain ⟨houter, hinner⟩ := blockAt?_of_mem_blocksIn lines.length 0 lines (List.drop_zero).symm
  refine ⟨houter, hinner, fun i line hline => ?_⟩
  rw [blockAt?_eq_map hline, blockAt?_eq_map hline]
  have hinjective : Function.Injective (blockFrom lines i) := by
    intro x y hxy
    exact congrArg Block.opening hxy
  refine ⟨?_, ?_, fun b c hb hc => ?_, ?_⟩
  · rw [ne_eq, Option.map_eq_none_iff, ← ne_eq, opensAtTop_ne_none_iff]
  · rw [ne_eq, Option.map_eq_none_iff, ← ne_eq, opensInside_ne_none_iff]
  · obtain ⟨opening, hinside, rfl⟩ := Option.map_eq_some_iff.mp hb
    obtain ⟨other, htop, rfl⟩ := Option.map_eq_some_iff.mp hc
    have hplain : isCommentLine line = false :=
      (opensAtTop_ne_none_iff.mp (by rw [htop]; simp)).1
    rw [opensAtTop_of_opensInside hplain hinside] at htop
    rw [Option.some.inj htop]
  · rw [(Option.map_injective hinjective).eq_iff, opensInside_eq_opensAtTop_iff]

/-- A group with a test in a comment, and with a test behind the word for groups. -/
def sidelined : List String :=
  ["describe('a', () => \x7b", "  // it('b', () => \x7b\x7d);",
    "  describe(x); it('c', () => \x7b\x7d);", "\x7d);"]

theorem blockAt?_inside_eq_top_iff_sidelined :
    (blockAt? opensInside sidelined 1 ≠ none ∧ blockAt? opensAtTop sidelined 1 = none) ∧
      blockAt? opensInside sidelined 2 = none ∧ blockAt? opensAtTop sidelined 2 ≠ none := by
  obtain ⟨-, -, hlines⟩ := blockAt?_inside_eq_top_iff sidelined
  obtain ⟨htop, hinside, -⟩ := hlines 1 "  // it('b', () => \x7b\x7d);" rfl
  obtain ⟨htop', hinside', -⟩ := hlines 2 "  describe(x); it('c', () => \x7b\x7d);" rfl
  refine ⟨⟨hinside.mpr (by decide +kernel), ?_⟩, ?_, htop'.mpr (by decide +kernel)⟩
  · exact not_ne_iff.mp (htop.not.mpr (by decide +kernel))
  · exact not_ne_iff.mp (hinside'.not.mpr (by decide +kernel))

end SuiteTidy.Suite
