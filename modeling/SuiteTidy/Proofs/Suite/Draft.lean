import SuiteTidy.Proofs.Suite.Scan
import SuiteTidy.Suite.Draft

/-!
The lines that are written for drafts of tests. Every line that is written for a plain draft keeps
the balance of braces, so a scan of the lines finds one block for each hook, test and group, in the
order of the drafts and nested as they are.
-/

set_option autoImplicit false
set_option relaxedAutoImplicit false

namespace SuiteTidy.Suite

open SuiteTidy.Text

/-! Drafts whose names and lines do not disturb a scan, and what is to be found of them. -/

/-- A name that stands in quotes on one line: not empty, without quotes, braces and line ends. -/
def PlainName (s : String) : Prop :=
  s ≠ "" ∧ ∀ c ∈ s.toList, c ∉ ['\'', '"', '\x7b', '\x7d', '\n']

instance (s : String) : Decidable (PlainName s) :=
  @instDecidableAnd _ _ _ (List.decidableBAll _ _)

def PlainLine (s : String) : Prop := ∀ c ∈ s.toList, c ∉ ['\x7b', '\x7d', '\n']

instance (s : String) : Decidable (PlainLine s) := List.decidableBAll _ _

structure CaseDraft.Plain (t : CaseDraft) : Prop where
  name : PlainName t.name
  no_group : ¬ "describe(".toList <:+: t.name.toList
  body : ∀ l ∈ t.body, PlainLine l

instance (t : CaseDraft) : Decidable t.Plain :=
  decidable_of_iff (PlainName t.name ∧ ¬ "describe(".toList <:+: t.name.toList ∧
    ∀ l ∈ t.body, PlainLine l) ⟨fun ⟨hn, hg, hb⟩ => ⟨hn, hg, hb⟩, fun ⟨hn, hg, hb⟩ => ⟨hn, hg, hb⟩⟩

mutual
def GroupDraft.Plain : GroupDraft → Prop
  | ⟨name, _, tests, nested⟩ => PlainName name ∧ (∀ t ∈ tests, t.Plain) ∧ PlainGroups nested

def PlainGroups : List GroupDraft → Prop
  | [] => True
  | g :: gs => g.Plain ∧ PlainGroups gs
end

mutual
def GroupDraft.testNames : GroupDraft → List String
  | ⟨_, _, tests, nested⟩ => tests.map (·.name) ++ testNamesIn nested

def testNamesIn : List GroupDraft → List String
  | [] => []
  | g :: gs => g.testNames ++ testNamesIn gs
end

mutual
def GroupDraft.groupNames : GroupDraft → List String
  | ⟨name, _, _, nested⟩ => name :: groupNamesIn nested

def groupNamesIn : List GroupDraft → List String
  | [] => []
  | g :: gs => g.groupNames ++ groupNamesIn gs
end

def GroupDraft.innerNames : GroupDraft → List String
  | ⟨_, _, _, nested⟩ => groupNamesIn nested

mutual
/-- How deep the deepest hook, test or group inside a group lies; zero if there is none. -/
def GroupDraft.depth : GroupDraft → Nat
  | ⟨_, hasSetup, tests, nested⟩ =>
    max (if hasSetup || !tests.isEmpty then 1 else 0) (depthInside nested)

/-- The depth of the deepest of these groups and of what lies in them, seen from the group that
holds them. -/
def depthInside : List GroupDraft → Nat
  | [] => 0
  | g :: gs => max (g.depth + 1) (depthInside gs)
end

/-- A property of groups in a row follows if it passes from the groups inside the first one, and
from those behind it, to the whole row. -/
theorem forest_induction {motive : List GroupDraft → Prop} (nil : motive [])
    (cons : ∀ (name : String) (hasSetup : Bool) (tests : List CaseDraft)
      (nested gs : List GroupDraft), motive nested → motive gs →
      motive (⟨name, hasSetup, tests, nested⟩ :: gs)) :
    ∀ gs, motive gs
  | [] => nil
  | ⟨name, hasSetup, tests, nested⟩ :: gs =>
    cons name hasSetup tests nested gs (forest_induction nil cons nested)
      (forest_induction nil cons gs)

/-! The lines of drafts. -/

def describeLine (level : Nat) (name : String) : String :=
  padding level ++ "describe('" ++ name ++ "', () => \x7b"

def testLine (level : Nat) (t : CaseDraft) : String :=
  padding level ++ "it('" ++ t.name ++ "', " ++ (if t.isAsync then "async " else "") ++
    "() => \x7b"

def closeLine (level : Nat) : String := padding level ++ "\x7d);"

def CaseDraft.bodyLines (level : Nat) (t : CaseDraft) : List String :=
  (if t.body.isEmpty then ["expect(true).toBe(true);"] else t.body).map (padding (level + 1) ++ ·)

def hookLines (level : Nat) (hasSetup : Bool) : List String :=
  if hasSetup then setupLines level else []

def caseLines (level : Nat) (tests : List CaseDraft) : List String :=
  tests.flatMap fun t => t.lines level ++ [""]

theorem CaseDraft.lines_eq (level : Nat) (t : CaseDraft) :
    t.lines level = testLine level t :: t.bodyLines level ++ [closeLine level] := rfl

theorem GroupDraft.lines_eq (level : Nat) (name : String) (hasSetup : Bool)
    (tests : List CaseDraft) (nested : List GroupDraft) :
    GroupDraft.lines level ⟨name, hasSetup, tests, nested⟩ =
      describeLine level name ::
        (hookLines level hasSetup ++ caseLines (level + 1) tests ++
          groupLines (level + 1) nested) ++
        [closeLine level] := by
  simp [GroupDraft.lines, describeLine, hookLines, caseLines, closeLine]

private theorem caseLines_cons (level : Nat) (t : CaseDraft) (ts : List CaseDraft) :
    caseLines level (t :: ts) = t.lines level ++ [""] ++ caseLines level ts := rfl

/-! What the lines open and how they count. -/

@[simp] private theorem toList_padding (level : Nat) :
    (padding level).toList = List.replicate (2 * level) ' ' := by
  simp [padding]

theorem PlainName.toList_ne_nil {s : String} (h : PlainName s) : s.toList ≠ [] := by
  simpa using h.1

theorem PlainName.isQuote_eq_false {s : String} (h : PlainName s) :
    ∀ c ∈ s.toList, isQuote c = false := by
  intro c hc
  have hplain := h.2 c hc
  simp only [List.mem_cons, not_or] at hplain
  simp [isQuote, hplain]

theorem PlainName.not_mem {s : String} (h : PlainName s) {c : Char}
    (hc : c ∈ ['\'', '"', '\x7b', '\x7d', '\n']) : c ∉ s.toList :=
  fun hmem => h.2 c hmem hc

theorem PlainLine.not_mem {s : String} (h : PlainLine s) {c : Char}
    (hc : c ∈ ['\x7b', '\x7d', '\n']) : c ∉ s.toList :=
  fun hmem => h c hmem hc

private theorem callLabel?_padded {p : Char} (ps : List Char) (hp : p ≠ ' ') {name : String}
    (h : PlainName name) (level : Nat) (tail : List Char) :
    callLabel? (p :: ps) (List.replicate (2 * level) ' ' ++
      (p :: ps ++ '\'' :: (name.toList ++ '\'' :: ',' :: tail))) = some name.toList :=
  callLabel?_call (by simp [hp]) h.toList_ne_nil h.isQuote_eq_false tail

private theorem describeOpening?_describeLine {name : String} (h : PlainName name) (level : Nat) :
    describeOpening? (describeLine level name) = some ⟨.describe, name⟩ := by
  have hlabel := callLabel?_padded (p := 'd') "escribe(".toList (by decide) h level
    " () => \x7b".toList
  simp only [describeOpening?, describeName?, describeLine]
  simp at hlabel ⊢
  simp [hlabel]

private theorem testOpening?_testLine {t : CaseDraft} (h : PlainName t.name) (level : Nat) :
    testOpening? (testLine level t) = some ⟨.test, t.name⟩ := by
  have hlabel := callLabel?_padded (p := 'i') "t(".toList (by decide) h level
    ((if t.isAsync then " async " else " ") ++ "() => \x7b").toList
  cases hasync : t.isAsync <;> simp [testOpening?, testName?, testLine, hasync] at hlabel ⊢ <;>
    simp [hlabel]

private theorem hookOpening?_setupLine (level : Nat) :
    hookOpening? (padding level ++ "beforeEach(() => \x7b") =
      some ⟨.hook .beforeEach, "beforeEach"⟩ := by
  have hskip : ∀ n cs, hookIn? (List.replicate n ' ' ++ cs) = hookIn? cs := by
    intro n cs
    induction n with
    | zero => rfl
    | succ n ih => simpa [List.replicate_succ, hookIn?, Hook.all, Hook.name, startsWith] using ih
  have hhook : hookIn? "beforeEach(() => \x7b".toList = some .beforeEach := by decide
  simp only [hookOpening?, hook?, String.toList_append, toList_padding, hskip, hhook]
  rfl

private theorem hasText_describe_testLine {t : CaseDraft} (h : t.Plain) (level : Nat) :
    hasText (testLine level t) "describe(" = false := by
  have hline : (testLine level t).toList =
      (List.replicate (2 * level) ' ' ++ "it(".toList) ++ '\'' :: (t.name.toList ++ '\'' ::
        (", " ++ (if t.isAsync then "async " else "") ++ "() => \x7b").toList) := by
    simp [testLine]
  rw [Bool.eq_false_iff, ne_eq, hasText_iff, hline]
  intro hinfix
  have hd : 'd' ∈ "describe(".toList := by decide
  -- The word holds no quote, so it stands in front of the name, in the name, or behind it.
  rcases infix_of_append_cons (by decide) hinfix with hfront | hinfix
  · exact absurd (hfront.subset hd) (by simp)
  · rcases infix_of_append_cons (by decide) hinfix with hname | hback
    · exact h.no_group hname
    · exact absurd (hback.subset hd) (by cases t.isAsync <;> decide)

/-- A rule by which the line of a group opens that group, and an empty line opens nothing. -/
def OpensGroups (rule : String → Option Opening) (level : Nat) : Prop :=
  rule "" = none ∧
    ∀ name, PlainName name → rule (describeLine level name) = some ⟨.describe, name⟩

private theorem opensGroups_inside (level : Nat) : OpensGroups opensInside level := by
  refine ⟨by decide, fun name h => ?_⟩
  have hword : hasText (describeLine level name) "describe(" = true :=
    hasText_iff.mpr ⟨(padding level).toList, ("'" ++ name ++ "', () => \x7b").toList, by
      simp [describeLine]⟩
  rw [opensInside, if_pos hword, describeOpening?_describeLine h]

theorem opensGroups_top : OpensGroups opensAtTop 0 := by
  refine ⟨by decide, fun name h => ?_⟩
  have hcomment : isCommentLine (describeLine 0 name) = false :=
    isCommentLine_eq_false (c := 'd') (by simp [describeLine]; rfl) (by decide) (by decide)
  rw [opensAtTop, hcomment, describeOpening?_describeLine h]
  rfl

private theorem opensInside_testLine {t : CaseDraft} (h : t.Plain) (level : Nat) :
    opensInside (testLine level t) = some ⟨.test, t.name⟩ := by
  have hword : hasText (testLine level t) "it(" = true :=
    hasText_iff.mpr ⟨(padding level).toList,
      ("'" ++ t.name ++ "', " ++ (if t.isAsync then "async " else "") ++ "() => \x7b").toList, by
      simp [testLine]⟩
  rw [opensInside, hasText_describe_testLine h, hword, testOpening?_testLine h.name]
  rfl

private theorem opensInside_setupLine (level : Nat) :
    opensInside (padding level ++ "beforeEach(() => \x7b") =
      some ⟨.hook .beforeEach, "beforeEach"⟩ := by
  have hdescribe : hasText (padding level ++ "beforeEach(() => \x7b") "describe(" = false :=
    hasText_eq_false_of_not_mem (c := 'd') (by decide) (by simp)
  have htest : hasText (padding level ++ "beforeEach(() => \x7b") "it(" = false :=
    hasText_eq_false_of_not_mem (c := 'i') (by decide) (by simp)
  rw [opensInside, hdescribe, htest, hookOpening?_setupLine]
  rfl

/-! The balance of braces. -/

theorem opens_eq_zero {line : String} (h : '\x7b' ∉ line.toList) : opens line = 0 :=
  List.count_eq_zero.mpr h

theorem closes_eq_zero {line : String} (h : '\x7d' ∉ line.toList) : closes line = 0 :=
  List.count_eq_zero.mpr h

private theorem steady_empty : Steady [""] := Steady.line (by decide) (by decide)

private theorem opens_closeLine (level : Nat) : opens (closeLine level) = 0 :=
  opens_eq_zero (by simp [closeLine])

private theorem closes_closeLine (level : Nat) : closes (closeLine level) = 1 := by
  simp [closes, closeLine, List.count_append, List.count_replicate]

private theorem steady_plain_lines {ls : List String} (h : ∀ l ∈ ls, PlainLine l) (level : Nat) :
    Steady (ls.map (padding level ++ ·)) := by
  induction ls with
  | nil => exact Steady.nil
  | cons l ls ih =>
    have hl : PlainLine l := h l (by simp)
    have hline : Steady [padding level ++ l] :=
      Steady.line (opens_eq_zero (by simp [hl.not_mem])) (closes_eq_zero (by simp [hl.not_mem]))
    simpa using hline.append (ih fun x hx => h x (by simp [hx]))

theorem CaseDraft.Plain.enclosed {t : CaseDraft} (h : t.Plain) (level : Nat) :
    Enclosed (testLine level t) (t.bodyLines level) (closeLine level) where
  opens_first := by
    have hname := List.count_eq_zero.mpr (h.name.not_mem (c := '\x7b') (by simp))
    cases hasync : t.isAsync <;>
      simp [opens, testLine, hasync, List.count_append, List.count_replicate, hname]
  closes_first := closes_eq_zero (by
    have hname := h.name.not_mem (c := '\x7d') (by simp)
    cases hasync : t.isAsync <;> simp [testLine, hasync, hname])
  steady := by
    refine steady_plain_lines ?_ (level + 1)
    split
    · intro l hl
      rw [List.mem_singleton.mp hl]
      decide
    · exact h.body
  opens_last := opens_closeLine level
  closes_last := closes_closeLine level

private theorem enclosed_setup (level : Nat) :
    Enclosed (padding (level + 1) ++ "beforeEach(() => \x7b") [padding (level + 2) ++ "// Setup"]
      (closeLine (level + 1)) where
  opens_first := by simp [opens, List.count_append, List.count_replicate]
  closes_first := closes_eq_zero (by simp)
  steady := Steady.line (opens_eq_zero (by simp)) (closes_eq_zero (by simp))
  opens_last := opens_closeLine (level + 1)
  closes_last := closes_closeLine (level + 1)

private theorem enclosed_group {name : String} (h : PlainName name) {inner : List String}
    (hinner : Steady inner) (level : Nat) :
    Enclosed (describeLine level name) inner (closeLine level) where
  opens_first := by
    have hname := List.count_eq_zero.mpr (h.not_mem (c := '\x7b') (by simp))
    simp [opens, describeLine, List.count_append, List.count_replicate, hname]
  closes_first := closes_eq_zero (by
    have hname := h.not_mem (c := '\x7d') (by simp)
    simp [describeLine, hname])
  steady := hinner
  opens_last := opens_closeLine level
  closes_last := closes_closeLine level

/-! The blocks of drafts. -/

def hookBlocks (level at_ : Nat) (hasSetup : Bool) : List Block :=
  if hasSetup then
    [enclosedBlock ⟨.hook .beforeEach, "beforeEach"⟩ ((setupLines level).take 3) [] at_]
  else []

def caseBlocks (level at_ : Nat) : List CaseDraft → List Block
  | [] => []
  | t :: ts =>
    enclosedBlock ⟨.test, t.name⟩ (t.lines level) [] at_ ::
      caseBlocks level (at_ + (t.lines level ++ [""]).length) ts

mutual
def GroupDraft.block (level at_ : Nat) : GroupDraft → Block
  | ⟨name, hasSetup, tests, nested⟩ =>
    let hook := hookLines level hasSetup
    let cases := caseLines (level + 1) tests
    enclosedBlock ⟨.describe, name⟩ (GroupDraft.lines level ⟨name, hasSetup, tests, nested⟩)
      (hookBlocks level (at_ + 1) hasSetup ++
        caseBlocks (level + 1) (at_ + 1 + hook.length) tests ++
        groupBlocks (level + 1) (at_ + 1 + (hook ++ cases).length) nested) at_

def groupBlocks (level at_ : Nat) : List GroupDraft → List Block
  | [] => []
  | g :: gs =>
    g.block level at_ :: groupBlocks level (at_ + (g.lines level ++ [""]).length) gs
end

private theorem finds_hookLines (level : Nat) (hasSetup : Bool) :
    Steady (hookLines level hasSetup) ∧
      Finds opensInside (hookLines level hasSetup) (hookBlocks level · hasSetup) := by
  cases hasSetup with
  | false => exact ⟨Steady.nil, Finds.nil⟩
  | true =>
    have hempty : Finds opensInside [""] fun _ => [] := Finds.quiet (by decide)
    have hleaf := Finds.leaf (enclosed_setup level) (opensInside_setupLine (level + 1)) (by simp)
    exact ⟨(enclosed_setup level).steady_lines.append steady_empty, hleaf.append hempty⟩

private theorem finds_caseLines {tests : List CaseDraft} (h : ∀ t ∈ tests, t.Plain) (level : Nat) :
    Steady (caseLines level tests) ∧
      Finds opensInside (caseLines level tests) (caseBlocks level · tests) := by
  induction tests with
  | nil => exact ⟨Steady.nil, Finds.nil⟩
  | cons t ts ih =>
    have ht : t.Plain := h t (by simp)
    obtain ⟨hsteady, hfinds⟩ := ih fun x hx => h x (by simp [hx])
    have hempty : Finds opensInside [""] fun _ => [] := Finds.quiet (by decide)
    have hleaf := Finds.leaf (ht.enclosed level) (opensInside_testLine ht level) (by simp)
    rw [caseLines_cons, CaseDraft.lines_eq]
    exact ⟨((ht.enclosed level).steady_lines.append steady_empty).append hsteady,
      (hleaf.append hempty).append hfinds⟩

theorem finds_groupLines {gs : List GroupDraft} (h : PlainGroups gs) (level : Nat) :
    Steady (groupLines level gs) ∧ ∀ rule, OpensGroups rule level →
      Finds rule (groupLines level gs) (groupBlocks level · gs) := by
  induction gs using forest_induction generalizing level with
  | nil => exact ⟨Steady.nil, fun _ _ => Finds.nil⟩
  | cons name hasSetup tests nested gs inside behind =>
    obtain ⟨⟨hname, htests, hnested⟩, hgs⟩ := h
    obtain ⟨hookSteady, hookFinds⟩ := finds_hookLines level hasSetup
    obtain ⟨caseSteady, caseFinds⟩ := finds_caseLines htests (level + 1)
    obtain ⟨nestedSteady, nestedFinds⟩ := inside hnested (level + 1)
    obtain ⟨restSteady, restFinds⟩ := behind hgs level
    have hsteady := (hookSteady.append caseSteady).append nestedSteady
    have henclosed := enclosed_group hname hsteady level
    have hinner := (hookFinds.append caseFinds).append
      (nestedFinds opensInside (opensGroups_inside (level + 1)))
    rw [groupLines, GroupDraft.lines_eq]
    refine ⟨(henclosed.steady_lines.append steady_empty).append restSteady, fun rule hrule => ?_⟩
    have hempty : Finds rule [""] fun _ => [] := Finds.quiet hrule.1
    have hgroup := Finds.group henclosed (hrule.2 name hname) rfl hinner
    have hall := (hgroup.append hempty).append (restFinds rule hrule)
    simpa only [groupBlocks, GroupDraft.block, GroupDraft.lines_eq, List.append_nil,
      List.singleton_append] using hall

end SuiteTidy.Suite
