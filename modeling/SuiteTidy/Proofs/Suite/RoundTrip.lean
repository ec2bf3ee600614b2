import SuiteTidy.Proofs.Lists
import SuiteTidy.Proofs.Suite.Draft
import SuiteTidy.Suite.Source

/-!
Reading a test source that was written from drafts. Main statement: the outline of the source names
the tests and the inner groups of the drafts, counts the outer groups and has the depth of the
drafts, whatever stands in the import and mock lines, as long as no parenthesis is opened there.
-/

set_option autoImplicit false
set_option relaxedAutoImplicit false

namespace SuiteTidy.Suite

open SuiteTidy.Text

/-! What the blocks of drafts tell. -/

private theorem testCases_append (xs ys : List Block) :
    testCases (xs ++ ys) = testCases xs ++ testCases ys := by
  induction xs with
  | nil => rfl
  | cons b xs ih => simp only [List.cons_append, testCases, ih, List.append_assoc]

private theorem categories_append (xs ys : List Block) :
    categories (xs ++ ys) = categories xs ++ categories ys := by
  induction xs with
  | nil => rfl
  | cons b xs ih => simp only [List.cons_append, categories, ih, List.append_assoc]

private theorem depthBelow_append (xs ys : List Block) :
    depthBelow (xs ++ ys) = max (depthBelow xs) (depthBelow ys) := by
  induction xs with
  | nil => simp [depthBelow]
  | cons b xs ih => simp only [List.cons_append, depthBelow, ih, Nat.max_assoc]

private theorem testCases_hookBlocks (level at_ : Nat) (hasSetup : Bool) :
    testCases (hookBlocks level at_ hasSetup) = [] := by
  cases hasSetup <;> rfl

private theorem testCases_caseBlocks (level at_ : Nat) (tests : List CaseDraft) :
    testCases (caseBlocks level at_ tests) = tests.map (·.name) := by
  induction tests generalizing at_ with
  | nil => rfl
  | cons t ts ih => simp [caseBlocks, testCases, testCasesOf, enclosedBlock, ih]

private theorem testCases_groupBlocks (level at_ : Nat) (gs : List GroupDraft) :
    testCases (groupBlocks level at_ gs) = testNamesIn gs := by
  induction gs using forest_induction generalizing level at_ with
  | nil => rfl
  | cons name hasSetup tests nested gs inside behind =>
    simp [groupBlocks, GroupDraft.block, enclosedBlock, testCases, testCasesOf, testCases_append,
      testCases_hookBlocks, testCases_caseBlocks, testNamesIn, GroupDraft.testNames, inside, behind]

private theorem depthBelow_hookBlocks (level at_ : Nat) (hasSetup : Bool) :
    depthBelow (hookBlocks level at_ hasSetup) = if hasSetup then 1 else 0 := by
  cases hasSetup <;> rfl

private theorem depthBelow_caseBlocks (level at_ : Nat) (tests : List CaseDraft) :
    depthBelow (caseBlocks level at_ tests) = if tests.isEmpty then 0 else 1 := by
  induction tests generalizing at_ with
  | nil => rfl
  | cons t ts ih =>
    simp only [caseBlocks, depthBelow, depthOf, enclosedBlock, ih]
    cases ts <;> rfl

private theorem depthBelow_groupBlocks (level at_ : Nat) (gs : List GroupDraft) :
    depthBelow (groupBlocks level at_ gs) = depthInside gs := by
  induction gs using forest_induction generalizing level at_ with
  | nil => rfl
  | cons name hasSetup tests nested gs inside behind =>
    simp only [groupBlocks, GroupDraft.block, enclosedBlock, depthBelow, depthOf, depthBelow_append,
      depthBelow_hookBlocks, depthBelow_caseBlocks, inside, behind, depthInside, GroupDraft.depth]
    cases hasSetup <;> cases tests <;> simp

private theorem depthInside_sub_one (gs : List GroupDraft) :
    depthInside gs - 1 = (gs.map GroupDraft.depth).foldr max 0 := by
  induction gs with
  | nil => rfl
  | cons g gs ih =>
    simp only [depthInside, List.map_cons, List.foldr_cons, ← ih]
    omega

private theorem isIndented_enclosedBlock {first : String} (hfirst : '\n' ∉ first.toList)
    (opening : Opening) (rest : List String) (children : List Block) (at_ : Nat) :
    (enclosedBlock opening (first :: rest) children at_).isIndented =
      (first.toList.head? == some ' ') := by
  have hhead : (linesOf (unlines (first :: rest))).head? = some first := by
    cases rest with
    | nil => simp [linesOf, unlines, splitLines, List.splitOn_eq_singleton hfirst]
    | cons next rest =>
      simp [linesOf, unlines, splitLines,
        List.splitOn_append_cons_self_of_not_mem hfirst]
  simp [Block.isIndented, Block.firstLine, enclosedBlock, List.headD_eq_head?_getD, hhead]

private theorem isIndented_group {name : String} (h : PlainName name) (level at_ : Nat)
    (rest : List String) (children : List Block) :
    (enclosedBlock ⟨.describe, name⟩ (describeLine level name :: rest) children at_).isIndented =
      decide (0 < level) := by
  have hline : '\n' ∉ (describeLine level name).toList := by
    simp [describeLine, h.not_mem]
  rw [isIndented_enclosedBlock hline]
  cases level <;> simp [describeLine, Nat.mul_add, List.replicate_succ]

private theorem categories_hookBlocks (level at_ : Nat) (hasSetup : Bool) :
    categories (hookBlocks level at_ hasSetup) = [] := by
  cases hasSetup <;> rfl

private theorem categories_caseBlocks (level at_ : Nat) (tests : List CaseDraft) :
    categories (caseBlocks level at_ tests) = [] := by
  induction tests generalizing at_ with
  | nil => rfl
  | cons t ts ih => simp [caseBlocks, categories, categoriesOf, enclosedBlock, ih]

private theorem categoriesOf_enclosedBlock (name : String) (ls : List String)
    (children : List Block) (at_ : Nat) :
    categoriesOf (enclosedBlock ⟨.describe, name⟩ ls children at_) =
      (if (enclosedBlock ⟨.describe, name⟩ ls [] at_).isIndented then [name] else []) ++
        categories children := by
  rw [enclosedBlock, categoriesOf, if_pos rfl]
  rfl

private theorem categories_groupBlocks {gs : List GroupDraft} (h : PlainGroups gs)
    (level at_ : Nat) :
    categories (groupBlocks level at_ gs) =
      if level = 0 then gs.flatMap GroupDraft.innerNames else groupNamesIn gs := by
  induction gs using forest_induction generalizing level at_ with
  | nil => cases level <;> rfl
  | cons name hasSetup tests nested gs inside behind =>
    obtain ⟨⟨hname, _, hnested⟩, hgs⟩ := h
    rw [groupBlocks, categories, GroupDraft.block, categoriesOf_enclosedBlock, GroupDraft.lines_eq,
      List.cons_append, isIndented_group hname, categories_append, categories_append,
      categories_hookBlocks, categories_caseBlocks, inside hnested, behind hgs]
    cases level <;> simp [GroupDraft.innerNames, GroupDraft.groupNames, groupNamesIn]

/-! The lines of a source. -/

theorem linesOf_append_newline (a b : String) :
    linesOf (a ++ "\n" ++ b) = linesOf a ++ linesOf b := by
  simp [linesOf, splitLines, List.splitOn_append_cons_self]

theorem linesOf_unlines {ls : List String} (hne : ls ≠ []) (h : ∀ l ∈ ls, '\n' ∉ l.toList) :
    linesOf (unlines ls) = ls := by
  have hsplit : (['\n'].intercalate (ls.map String.toList)).splitOn '\n' = ls.map String.toList :=
    List.splitOn_intercalate '\n' (by simpa using h) (by simpa using hne)
  simp [linesOf, unlines, splitLines, hsplit]

theorem linesOf_sections {sections : List String} (hne : sections ≠ []) :
    linesOf ("\n\n".intercalate sections ++ "\n") =
      sections.flatMap fun s => linesOf s ++ [""] := by
  have hempty : linesOf "" = [""] := by decide
  induction sections with
  | nil => exact absurd rfl hne
  | cons s rest ih =>
    cases rest with
    | nil =>
      have hline := linesOf_append_newline s ""
      simpa [hempty] using hline
    | cons next rest =>
      have hgap : "\n\n".intercalate (s :: next :: rest) ++ "\n" =
          s ++ "\n" ++ ("" ++ "\n" ++ ("\n\n".intercalate (next :: rest) ++ "\n")) :=
        String.toList_inj.mp (by simp)
      rw [hgap, linesOf_append_newline, linesOf_append_newline, ih (by simp), hempty]
      simp only [List.flatMap_cons, List.append_assoc]

private theorem not_mem_of_mem_linesOf {s : String} {c : Char} (hs : c ∉ s.toList) :
    ∀ l ∈ linesOf s, c ∉ l.toList := by
  intro l hl
  obtain ⟨piece, hpiece, rfl⟩ := List.mem_map.mp hl
  rw [String.toList_ofList]
  exact fun hmem => hs (subset_of_mem_splitOn hpiece hmem)

private theorem not_mem_unlines {ls : List String} {c : Char} (hc : c ≠ '\n')
    (h : ∀ l ∈ ls, c ∉ l.toList) : c ∉ (unlines ls).toList := by
  induction ls with
  | nil => simp [unlines]
  | cons l ls ih =>
    have hl : c ∉ l.toList := h l (by simp)
    have hls := ih fun x hx => h x (by simp [hx])
    cases ls with
    | nil => simpa [unlines] using hl
    | cons next ls =>
      unfold unlines at hls ⊢
      simp only [String.intercalate_cons_cons, String.toList_append, List.mem_append, not_or]
      exact ⟨⟨hl, by simpa using hc⟩, hls⟩

private theorem newline_not_mem_closeLine (level : Nat) : '\n' ∉ (closeLine level).toList := by
  simp [closeLine]

private theorem CaseDraft.Plain.newline_not_mem {t : CaseDraft} (h : t.Plain) (level : Nat) :
    ∀ l ∈ t.lines level, '\n' ∉ l.toList := by
  rw [CaseDraft.lines_eq]
  intro l hl
  simp only [List.cons_append, List.mem_cons, List.mem_append, List.not_mem_nil, or_false] at hl
  rcases hl with rfl | hl | rfl
  · have hname := h.name.not_mem (c := '\n') (by simp)
    cases hasync : t.isAsync <;> simp [testLine, hasync, hname]
  · obtain ⟨line, hline, rfl⟩ := List.mem_map.mp hl
    have hplain : '\n' ∉ line.toList := by
      split at hline
      · rw [List.mem_singleton.mp hline]
        decide
      · exact (h.body line hline).not_mem (by simp)
    simp [hplain]
  · exact newline_not_mem_closeLine level

private theorem newline_not_mem_groupLines {gs : List GroupDraft} (h : PlainGroups gs)
    (level : Nat) : ∀ l ∈ groupLines level gs, '\n' ∉ l.toList := by
  induction gs using forest_induction generalizing level with
  | nil => simp [groupLines]
  | cons name hasSetup tests nested gs inside behind =>
    obtain ⟨⟨hname, htests, hnested⟩, hgs⟩ := h
    have hopen : '\n' ∉ (describeLine level name).toList := by simp [describeLine, hname.not_mem]
    have hhook : ∀ l ∈ hookLines level hasSetup, '\n' ∉ l.toList := by
      cases hasSetup <;> simp [hookLines, setupLines]
    have hcases : ∀ l ∈ caseLines (level + 1) tests, '\n' ∉ l.toList := by
      intro l hl
      obtain ⟨t, ht, hl⟩ := List.mem_flatMap.mp hl
      rcases List.mem_append.mp hl with hl | hl
      · exact (htests t ht).newline_not_mem (level + 1) l hl
      · rw [List.mem_singleton.mp hl]
        decide
    rw [groupLines, GroupDraft.lines_eq]
    simp only [List.cons_append, List.append_assoc, List.forall_mem_cons, List.forall_mem_append]
    exact ⟨hopen, hhook, hcases, inside hnested (level + 1), newline_not_mem_closeLine level,
      by simp, by simp, by simp, behind hgs level⟩

private theorem linesOf_groups {gs : List GroupDraft} (h : PlainGroups gs) :
    (gs.map fun g => unlines (g.lines 0)).flatMap (fun s => linesOf s ++ [""]) =
      groupLines 0 gs := by
  induction gs with
  | nil => rfl
  | cons g gs ih =>
    have hlines : linesOf (unlines (g.lines 0)) = g.lines 0 := by
      refine linesOf_unlines ?_ fun l hl =>
        newline_not_mem_groupLines h 0 l (by simp [groupLines, hl])
      cases g
      simp [GroupDraft.lines]
    rw [List.map_cons, List.flatMap_cons, ih h.2, hlines, groupLines]

private theorem linesOf_sourceText {imports : List String} {mocks : List MockDraft}
    {gs : List GroupDraft} (himports : ∀ l ∈ imports, '(' ∉ l.toList)
    (hmocks : ∀ m ∈ mocks, '(' ∉ m.line.toList) (hgs : PlainGroups gs) :
    ∃ front, (∀ l ∈ front, '(' ∉ l.toList) ∧
      linesOf (sourceText imports mocks gs) = front ++ groupLines 0 gs := by
  let head : List String := (if imports.isEmpty then [] else [unlines imports]) ++
    (if mocks.isEmpty then [] else [unlines (mocks.map MockDraft.line)])
  have hhead : ∀ s ∈ head, '(' ∉ s.toList := by
    have hi : '(' ∉ (unlines imports).toList := not_mem_unlines (by decide) himports
    have hm : '(' ∉ (unlines (mocks.map MockDraft.line)).toList :=
      not_mem_unlines (by decide) (by simpa using hmocks)
    simp only [head, List.forall_mem_append]
    constructor
    · split <;> simp [hi]
    · split <;> simp [hm]
  by_cases hempty : head ++ (gs.map fun g => unlines (g.lines 0)) = []
  · have hgroups : gs = [] := List.map_eq_nil_iff.mp (List.append_eq_nil_iff.mp hempty).2
    refine ⟨["", ""], by simp, ?_⟩
    change linesOf ("\n\n".intercalate (head ++ gs.map fun g => unlines (g.lines 0)) ++ "\n") = _
    rw [hempty, hgroups]
    decide
  · refine ⟨head.flatMap fun s => linesOf s ++ [""], ?_, ?_⟩
    · intro l hl
      obtain ⟨s, hs, hl⟩ := List.mem_flatMap.mp hl
      rcases List.mem_append.mp hl with hl | hl
      · exact not_mem_of_mem_linesOf (hhead s hs) l hl
      · rw [List.mem_singleton.mp hl]
        decide
    · rw [← linesOf_groups hgs, ← List.flatMap_append, ← linesOf_sections hempty]
      rfl

private theorem length_groupBlocks (level at_ : Nat) (gs : List GroupDraft) :
    (groupBlocks level at_ gs).length = gs.length := by
  induction gs generalizing at_ with
  | nil => rfl
  | cons g gs ih => simp [groupBlocks, ih]

private theorem blocks_sourceText {imports : List String} {mocks : List MockDraft}
    {gs : List GroupDraft} (himports : ∀ l ∈ imports, '(' ∉ l.toList)
    (hmocks : ∀ m ∈ mocks, '(' ∉ m.line.toList) (hgs : PlainGroups gs) :
    ∃ at_, blocks (linesOf (sourceText imports mocks gs)) = groupBlocks 0 at_ gs := by
  obtain ⟨front, hfront, hlines⟩ := linesOf_sourceText himports hmocks hgs
  have hquiet : Finds opensAtTop front fun _ => [] :=
    Finds.quiet_lines fun l hl => opensAtTop_eq_none_of_not_mem (hfront l hl)
  have hfinds := hquiet.append ((finds_groupLines hgs 0).2 opensAtTop opensGroups_top)
  have hall := hfinds (front ++ groupLines 0 gs).length 0 [] le_rfl
  refine ⟨front.length, ?_⟩
  rw [hlines, blocks]
  simpa [blocksIn] using hall

/-! Drafts that are given as dictionaries. -/

/-- A dictionary that tells a test: its name, its flag and the list of the lines of its body. -/
structure CaseDraft.ToldBy (t : CaseDraft) (d : Datum) : Prop where
  name : d.itemOr "name" (.text "should work") = .ok (.text t.name)
  isAsync : ∃ flag, d.itemOr "async" (.bool false) = .ok flag ∧ flag.truthy = t.isAsync
  body : d.itemOr "body" (.list []) = .ok (.texts t.body)

structure MockDraft.ToldBy (m : MockDraft) (d : Datum) : Prop where
  name : d.itemOr "name" (.text "mockData") = .ok (.text m.name)
  content : d.itemOr "content" (.text "\x7b\x7d") = .ok (.text m.content)

mutual
/-- A dictionary that tells a group: its name, its flag, the list of its tests and the list of the
groups inside it. -/
def GroupDraft.ToldBy (d : Datum) : GroupDraft → Prop
  | ⟨name, hasSetup, tests, nested⟩ => ∃ flag cases inner,
    d.itemOr "name" (.text "Test Suite") = .ok (.text name) ∧
    d.itemOr "beforeEach" .null = .ok flag ∧ flag.truthy = hasSetup ∧
    d.itemOr "tests" (.list []) = .ok (.list cases) ∧ List.Forall₂ CaseDraft.ToldBy tests cases ∧
    d.itemOr "nested" (.list []) = .ok (.list inner) ∧ GroupsToldBy inner nested

def GroupsToldBy : List Datum → List GroupDraft → Prop
  | ds, [] => ds = []
  | ds, g :: gs => ∃ d rest, ds = d :: rest ∧ GroupDraft.ToldBy d g ∧ GroupsToldBy rest gs
end

private theorem weight_lt_of_mem {x : Datum} {xs : List Datum} (h : x ∈ xs) :
    x.weight < Datum.weightAll xs := by
  induction xs with
  | nil => simp at h
  | cons y ys ih =>
    rw [Datum.weightAll]
    rcases List.mem_cons.mp h with rfl | h
    · omega
    · have := ih h
      omega

private theorem weight_lt_of_lookup {key v : Datum} {fields : List (Datum × Datum)}
    (h : Datum.lookup key fields = some v) : v.weight < Datum.weightFields fields := by
  induction fields with
  | nil => simp [Datum.lookup] at h
  | cons f fields ih =>
    obtain ⟨k, x⟩ := f
    rw [Datum.weightFields]
    simp only [Datum.lookup] at h
    split at h
    · cases h
      omega
    · have := ih h
      omega

private theorem weight_lt_of_itemOr {d x : Datum} {key : String} {inner : List Datum}
    (h : d.itemOr key (.list []) = .ok (.list inner)) (hx : x ∈ inner) : x.weight < d.weight := by
  cases d with
  | dict fields =>
    simp only [Datum.itemOr, Except.ok.injEq] at h
    cases hfound : Datum.lookup (.text key) fields with
    | none =>
      rw [hfound, Option.getD_none, Datum.list.injEq] at h
      subst h
      simp at hx
    | some v =>
      rw [hfound, Option.getD_some] at h
      subst h
      have hlist := weight_lt_of_lookup hfound
      have hitem := weight_lt_of_mem hx
      simp only [Datum.weight] at hlist ⊢
      omega
  | _ => simp [Datum.itemOr] at h

private theorem CaseDraft.ToldBy.ofDatum_eq {t : CaseDraft} {d : Datum} (h : t.ToldBy d) :
    CaseDraft.ofDatum d = .ok t := by
  obtain ⟨flag, hflag, hasync⟩ := h.isAsync
  have hbody : bodyOf (.texts t.body) = .ok t.body := by
    simp [bodyOf, Datum.texts, Datum.members, Datum.plain, bind, Except.bind, pure, Except.pure,
      Function.comp_def]
  simp only [CaseDraft.ofDatum, plainOr, h.name, hflag, h.body, bind, Except.bind, pure,
    Except.pure, hbody, Datum.plain, hasync]

private theorem MockDraft.ToldBy.ofDatum_eq {m : MockDraft} {d : Datum} (h : m.ToldBy d) :
    MockDraft.ofDatum d = .ok m := by
  simp only [MockDraft.ofDatum, plainOr, h.name, h.content, bind, Except.bind, pure, Except.pure,
    Datum.plain]

/-- Groups are read from the dictionaries that tell them; their weight bounds the depth. -/
private theorem GroupsToldBy.mapM_eq {gs : List GroupDraft} {ds : List Datum}
    (h : GroupsToldBy ds gs) {fuel : Nat} (hfuel : ∀ d ∈ ds, d.weight ≤ fuel) :
    ds.mapM (GroupDraft.ofDatumTo fuel) = .ok gs := by
  induction gs using forest_induction generalizing ds fuel with
  | nil =>
    obtain rfl : ds = [] := h
    rfl
  | cons name hasSetup tests nested gs inside behind =>
    obtain ⟨d, rest, rfl, htold, hrest⟩ := h
    obtain ⟨flag, cases, inner, hname, hflag, hsetup, hcases, htests, hinner, hnested⟩ := htold
    have hd : d.weight ≤ fuel := hfuel d (by simp)
    have hpos : 0 < d.weight := by cases d <;> simp only [Datum.weight] <;> omega
    obtain ⟨fuel, rfl⟩ : ∃ n, fuel = n + 1 := ⟨fuel - 1, by omega⟩
    have hbelow : ∀ x ∈ inner, x.weight ≤ fuel := by
      intro x hx
      have := weight_lt_of_itemOr hinner hx
      omega
    have hcaseData : cases.mapM CaseDraft.ofDatum = .ok tests :=
      Lists.mapM_eq_ok_iff.mpr (htests.imp fun _ _ ht => ht.ofDatum_eq).flip
    have hfirst : GroupDraft.ofDatumTo (fuel + 1) d = .ok ⟨name, hasSetup, tests, nested⟩ := by
      simp only [GroupDraft.ofDatumTo, plainOr, hname, hflag, hcases, hinner, Datum.members,
        hcaseData, inside hnested hbelow, hsetup, Datum.plain, bind, Except.bind, pure, Except.pure]
    have hothers := behind hrest fun x hx => hfuel x (by simp [hx])
    simp only [List.mapM_cons, hfirst, hothers, bind, Except.bind, pure, Except.pure]

private theorem GroupsToldBy.ofDatum_eq {gs : List GroupDraft} {ds : List Datum}
    (h : GroupsToldBy ds gs) : ds.mapM GroupDraft.ofDatum = .ok gs := by
  induction gs generalizing ds with
  | nil =>
    obtain rfl : ds = [] := h
    rfl
  | cons g gs ih =>
    obtain ⟨d, rest, rfl, htold, hrest⟩ := h
    have hone : GroupsToldBy [d] [g] := ⟨d, [], rfl, htold, rfl⟩
    have hread : [d].mapM (GroupDraft.ofDatumTo d.weight) = .ok [g] := hone.mapM_eq (by simp)
    have hg : GroupDraft.ofDatum d = .ok g := by
      rw [GroupDraft.ofDatum]
      cases hd : GroupDraft.ofDatumTo d.weight d with
      | error e => simp [hd, bind, Except.bind] at hread
      | ok g' => simpa [hd, bind, Except.bind, pure, Except.pure] using hread
    simp only [List.mapM_cons, hg, ih hrest, bind, Except.bind, pure, Except.pure]

private theorem mapM_texts {read : Datum × Nat → Reading String}
    (hread : ∀ s n, read (.text s, n) = .ok s) (ls : List String) (n : Nat) :
    ((ls.map Datum.text).zipIdx n).mapM read = .ok ls := by
  induction ls generalizing n with
  | nil => rfl
  | cons l ls ih =>
    simp only [List.map_cons, List.zipIdx_cons, List.mapM_cons, hread, ih, bind, Except.bind, pure,
      Except.pure]

theorem linesIn_texts (ls : List String) : linesIn (.texts ls) = .ok ls := by
  cases ls with
  | nil => rfl
  | cons l ls =>
    show joinable (.texts (l :: ls)) = .ok (l :: ls)
    simp only [joinable, Datum.texts, Datum.members, bind, Except.bind, pure, Except.pure]
    exact mapM_texts (fun _ _ => rfl) (l :: ls) 0

theorem drafts_mocks {mocks : List MockDraft} {ds : List Datum}
    (h : List.Forall₂ MockDraft.ToldBy mocks ds) :
    drafts MockDraft.ofDatum (.list ds) = .ok mocks := by
  have hread := Lists.mapM_eq_ok_iff.mpr (h.imp fun _ _ hm => hm.ofDatum_eq).flip
  cases h with
  | nil => rfl
  | cons => simpa [drafts, Datum.truthy, Datum.members, bind, Except.bind] using hread

/-- A source that is written from dictionaries and read again tells what the dictionaries told. -/
theorem outline_sourceOf {imports : List String} {mocks : List MockDraft} {gs : List GroupDraft}
    {mockData groupData : List Datum} (htoldMocks : List.Forall₂ MockDraft.ToldBy mocks mockData)
    (htoldGroups : GroupsToldBy groupData gs) (himports : ∀ l ∈ imports, '(' ∉ l.toList)
    (hmocks : ∀ m ∈ mocks, '(' ∉ m.line.toList) (hgs : PlainGroups gs) :
    ∃ source, sourceOf (.texts imports) (.list mockData) (.list groupData) = .ok source ∧
      (outline source).testCases = testNamesIn gs ∧
      (outline source).categories = gs.flatMap GroupDraft.innerNames ∧
      (outline source).blocks.length = gs.length ∧
      (outline source).nestingDepth = (gs.map GroupDraft.depth).foldr max 0 := by
  obtain ⟨at_, hblocks⟩ := blocks_sourceText himports hmocks hgs
  refine ⟨sourceText imports mocks gs, ?_, ?_, ?_, ?_, ?_⟩
  · simp only [sourceOf, linesIn_texts, drafts_mocks htoldMocks, Datum.members,
      htoldGroups.ofDatum_eq, bind, Except.bind, pure, Except.pure]
  · simp only [Outline.testCases, outline, hblocks, testCases_groupBlocks]
  · simp only [Outline.categories, outline, hblocks, categories_groupBlocks hgs, if_true]
  · simp only [outline, hblocks, length_groupBlocks]
  · simp only [Outline.nestingDepth, outline, hblocks, nestingDepth, depthBelow_groupBlocks,
      depthInside_sub_one]

theorem outline_sourceOf_nested :
    ∃ source, sourceOf (.texts ["import \x7b Test \x7d from '@nestjs/testing';"])
        (.list [.record [("name", .text "mockUser")]])
        (.list [.record [("name", .text "Users"), ("beforeEach", .bool true),
          ("tests", .list [.record [("name", .text "saves it("), ("async", .bool true)]]),
          ("nested", .list [.record [("name", .text "describe( again"),
            ("tests", .list [.record [("name", .text "loads"),
              ("body", .texts ["// it(", "expect(1).toBe(1);"])]])]])]]) = .ok source ∧
      (outline source).testCases = ["saves it(", "loads"] ∧
      (outline source).categories = ["describe( again"] ∧
      (outline source).blocks.length = 1 ∧
      (outline source).nestingDepth = 2 := by
  let inner : GroupDraft := ⟨"describe( again", false,
    [{ name := "loads", body := ["// it(", "expect(1).toBe(1);"] }], []⟩
  let outer : GroupDraft := ⟨"Users", true, [{ name := "saves it(", isAsync := true }], [inner]⟩
  refine @outline_sourceOf _ [{ name := "mockUser" }] [outer] _ _ ?_ ?_ ?_ ?_ ?_
  · exact .cons ⟨rfl, rfl⟩ .nil
  · refine ⟨_, _, rfl, ⟨_, _, _, rfl, rfl, rfl, rfl, ?_, rfl, ?_⟩, rfl⟩
    · exact .cons ⟨rfl, ⟨_, rfl, rfl⟩, rfl⟩ .nil
    · refine ⟨_, _, rfl, ⟨_, _, _, rfl, rfl, rfl, rfl, ?_, rfl, rfl⟩, rfl⟩
      exact .cons ⟨rfl, ⟨_, rfl, rfl⟩, rfl⟩ .nil
  · decide
  · decide
  · exact ⟨⟨by decide, by decide, ⟨by decide, by decide, trivial⟩, trivial⟩, trivial⟩

end SuiteTidy.Suite
