import SuiteTidy.Analysis
import SuiteTidy.Proofs.Metrics.Score
import SuiteTidy.Proofs.Plan.Planning
import SuiteTidy.Proofs.Scan
import SuiteTidy.Proofs.TestFile.Lists

/-!
Analysing test files. Every file that can be read as text is judged, and its record can be read back
from a document as long as its size and the number of its tests have not too many digits; its other
counts are bounded by its size. Main statement: an analysis keeps one record for each file that was
found, in order, and another list of those that need refactoring.
-/

set_option autoImplicit false
set_option relaxedAutoImplicit false

namespace SuiteTidy

/-! Counts of a text. -/

private theorem length_splitLines_le (cs : List Char) :
    (Text.splitLines cs).length ≤ cs.length + 1 := by
  unfold Text.splitLines
  induction cs with
  | nil => simp
  | cons c cs ih =>
    rw [List.splitOn_cons_eq_if_modifyHead]
    split_ifs <;> simp <;> omega

private theorem length_normalNewlines_le (cs : List Char) :
    (Text.normalNewlines cs).length ≤ cs.length := by
  fun_induction Text.normalNewlines cs <;> simp <;> omega

private theorem length_le_utf8ByteSize (cs : List Char) :
    cs.length ≤ (String.ofList cs).utf8ByteSize := by
  rw [String.utf8ByteSize_ofList]
  induction cs with
  | nil => simp
  | cons c cs ih =>
    have hpos := c.utf8Size_pos
    simp only [String.utf8Len_cons, List.length_cons]
    omega

private theorem Suite.length_mocksFrom_le (start : Nat) (lines : List String) :
    (mocksFrom start lines).length ≤ lines.length := by
  fun_induction mocksFrom start lines with
  | case1 => simp
  | case2 start line rest hname ih =>
    simp only [List.length_cons]
    omega
  | case3 start line rest name hname length ih =>
    simp only [List.length_drop] at ih
    simp only [List.length_cons]
    omega

private theorem FileTree.decode_eq_ok {c : Content} {s : String} (h : decode c = .ok s) :
    c.size = s.utf8ByteSize := by
  unfold decode at h
  split at h
  · cases h
  · rename_i bytes
    split at h
    · rename_i s' hvalid
      obtain rfl := Except.ok.inj h
      unfold String.fromUTF8? at hvalid
      split at hvalid
      · obtain rfl := Option.some.inj hvalid
        rfl
      · cases hvalid
    · split at h <;> cases h

private theorem FileTree.length_linesOf_le {t : FileTree} {p : Path} {s : String} {c : Content}
    (htext : t.readText p = .ok s) (hcontent : t.readContent p = .ok c) :
    (linesOf s).length ≤ c.size + 1 := by
  simp only [readText, readExact, hcontent, bind, Except.bind, pure, Except.pure] at htext
  cases hdecode : decode c with
  | error f => simp [hdecode] at htext
  | ok exact =>
    rw [hdecode] at htext
    obtain rfl := Except.ok.inj htext
    have hsize := decode_eq_ok hdecode
    have hlines := length_splitLines_le (Text.normalNewlines exact.toList)
    have hchars := length_normalNewlines_le exact.toList
    have hbytes := length_le_utf8ByteSize exact.toList
    rw [String.ofList_toList] at hbytes
    rw [linesOf, List.length_map, String.toList_ofList]
    omega

/-! Records that can be read back. -/

namespace TestFile

structure Writable (t : TestFile) : Prop where
  size : t.facts.sizeBytes.natAbs < Nat.pow 10 Json.digitLimit
  lines : t.facts.totalLines.natAbs < Nat.pow 10 Json.digitLimit
  codeLines : t.facts.codeLines.natAbs < Nat.pow 10 Json.digitLimit
  tests : t.testCases.length < Nat.pow 10 Json.digitLimit
  mocks : t.mockData.length < Nat.pow 10 Json.digitLimit

private theorem plain_score {x : Number} (hx : Json.Plain (.ofNumber x)) (word : String) :
    Json.Plain (.record [("score", .ofNumber x), ("level", .text word)]) := by
  refine Json.plain_record (by simp) ?_
  simp only [List.forall_mem_cons]
  exact ⟨hx, Json.plain_text word, by simp⟩

private theorem plain_toDatum {t : TestFile} {c : Complexity} {q : Quality} (h : t.Writable)
    (hc : t.complexity = some c) (hcomplexity : Json.Plain (.ofNumber c.score.number))
    (hq : t.quality = some q) (hquality : Json.Plain (.ofNumber q.score)) :
    Json.Plain t.toDatum := by
  rw [toDatum, hc, hq]
  refine Json.plain_record (by simp) ?_
  simp only [List.forall_mem_cons]
  exact ⟨Json.plain_text _, Json.plain_text _, Json.plain_text _,
    Json.plain_int h.size, Json.plain_int h.lines, Json.plain_int h.codeLines,
    Json.plain_texts _, Json.plain_int h.tests, Json.plain_int h.mocks,
    plain_score hcomplexity _, plain_score hquality _, Json.plain_bool _,
    Json.plain_text _, Json.plain_text _, Json.plain_text _, by simp⟩

end TestFile

namespace Analysis

open SuiteTidy.Work

def outlined (p : Path) (content : String) (size : Nat) (now : Moment) : TestFile :=
  let o := Suite.outline content
  TestFile.measured
    { facts := factsOf p content size now
      imports := o.importLines, mockData := o.mocks.map Suite.Mock.toDatum
      categories := o.categories, testCases := o.testCases, setupHooks := o.setupHooks
      analyzedAt := now }

theorem judged_eq_outlined (p : Path) (content : String) (size : Nat) (now : Moment) :
    judged p content size now = do
      let quality ← (outlined p content size now).judgedQuality
        (.int (Suite.outline content).cyclomatic)
        (.int (outlined p content size now).qualitySmells.length)
      return { outlined p content size now with quality := some quality } := rfl

private theorem judged_eq (p : Path) (content : String) (size : Nat) (now : Moment) :
    ∃ n level, n ≤ 100 ∧ judged p content size now = .ok
      { outlined p content size now with quality := some { score := .real n.toFloat, level } } := by
  obtain ⟨n, level, hn, hquality⟩ := (outlined p content size now).judgedQuality_eq
    (Suite.outline content).cyclomatic
  refine ⟨n, level, hn, ?_⟩
  rw [judged_eq_outlined, hquality]
  rfl

/-- A file whose text can be read, with few enough bytes and tests for their numbers to be
written. -/
structure Legible (t : FileTree) (p : Path) : Prop where
  text : ∃ s, t.readText p = .ok s
  size : ∀ c, t.readContent p = .ok c → c.size + 1 < Nat.pow 10 Json.digitLimit
  tests : ∀ s, t.readText p = .ok s →
    (Suite.outline s).testCases.length < Nat.pow 10 Json.digitLimit

def Judged (t : FileTree) (now : Moment) (p : Path) (file : TestFile) : Prop :=
  ∃ s c, t.readText p = .ok s ∧ t.readContent p = .ok c ∧ judged p s c.size now = .ok file

variable {t : FileTree} {now : Moment} {p : Path} {file : TestFile} {paths : List Path}
  {files : List TestFile}

theorem Judged.eq_outlined (h : Judged t now p file) :
    ∃ s c n level, t.readText p = .ok s ∧ t.readContent p = .ok c ∧ n ≤ 100 ∧ file =
      { outlined p s c.size now with quality := some { score := .real n.toFloat, level } } := by
  obtain ⟨s, c, htext, hcontent, hjudged⟩ := h
  obtain ⟨n, level, hn, heq⟩ := judged_eq p s c.size now
  rw [heq] at hjudged
  exact ⟨s, c, n, level, htext, hcontent, hn, (Except.ok.inj hjudged).symm⟩

private theorem Judged.path_eq (h : Judged t now p file) : file.facts.path = p := by
  obtain ⟨s, c, n, level, -, -, -, rfl⟩ := h.eq_outlined
  rfl

theorem Judged.complexity_eq (h : Judged t now p file) :
    file.complexity = some (.ofCounts file.counts) := by
  obtain ⟨s, c, n, level, -, -, -, rfl⟩ := h.eq_outlined
  rfl

theorem Judged.current (h : Judged t now p file) : file.Current := .inr h.complexity_eq

private theorem Judged.settled_eq (h : Judged t now p file) : file.settled = file := by
  rw [TestFile.settled, h.current.complexityNow_eq, ← h.complexity_eq]

theorem Judged.plain (h : Judged t now p file) (hp : Legible t p) :
    Json.Plain file.toDatum := by
  obtain ⟨s, c, n, level, htext, hcontent, hn, rfl⟩ := h.eq_outlined
  have hsize := hp.size c hcontent
  have hlines := FileTree.length_linesOf_le htext hcontent
  have hcode : ((linesOf s).countP fun l => !isBlankLine l && !isCommentLine l) ≤
      (linesOf s).length := List.countP_le_length
  have hmocks : ((Suite.outline s).mocks.map Suite.Mock.toDatum).length ≤ (linesOf s).length := by
    rw [List.length_map]
    exact Suite.length_mocksFrom_le _ _
  refine TestFile.plain_toDatum
    ⟨lt_of_le_of_lt (Nat.le_succ _) hsize, lt_of_le_of_lt hlines hsize,
      lt_of_le_of_lt (hcode.trans hlines) hsize, hp.tests s htext,
      lt_of_le_of_lt (hmocks.trans hlines) hsize⟩ rfl ?_ rfl ?_
  · exact Json.plain_real _
  · exact Json.plain_real _

/-! Runs. -/

private theorem exists_judged (h : ∃ s, t.readText p = .ok s) (now : Moment) :
    ∃ file, Judged t now p file := by
  obtain ⟨s, htext⟩ := h
  cases hcontent : t.readContent p with
  | error f => simp [FileTree.readText, FileTree.readExact, hcontent, bind, Except.bind] at htext
  | ok c =>
    obtain ⟨n, level, -, hjudged⟩ := judged_eq p s c.size now
    exact ⟨_, s, c, htext, hcontent, hjudged⟩

theorem exists_judged_texts (h : ∀ p ∈ paths, ∃ s, t.readText p = .ok s) (now : Moment) :
    ∃ files, List.Forall₂ (Judged t now) paths files := by
  induction paths with
  | nil => exact ⟨[], .nil⟩
  | cons p ps ih =>
    rw [List.forall_mem_cons] at h
    obtain ⟨file, hfile⟩ := exists_judged h.1 now
    obtain ⟨files, hfiles⟩ := ih h.2
    exact ⟨file :: files, .cons hfile hfiles⟩

theorem Judged.leads (h : Judged t now p file) : Leads (analyzeFile p) now t (.ok file) t := by
  obtain ⟨s, c, htext, hcontent, hjudged⟩ := h
  refine (Leads.ask htext).bind ?_
  refine (Leads.ask hcontent).bind ?_
  refine (Acts.now.leads rfl).bind ?_
  exact Leads.lift hjudged

theorem exists_path_of_mem (h : List.Forall₂ (Judged t now) paths files)
    (hfile : file ∈ files) : ∃ p ∈ paths, Judged t now p file := by
  induction h with
  | nil => cases hfile
  | cons hfirst _ ih =>
    rcases List.mem_cons.mp hfile with rfl | hrest
    · exact ⟨_, List.mem_cons_self, hfirst⟩
    · obtain ⟨p, hp, hjudged⟩ := ih hrest
      exact ⟨p, List.mem_cons_of_mem _ hp, hjudged⟩

/-- An analysis of files that can be read comes to its end if there is a directory for the two
lists, nothing stands in their place and every record can be written. -/
theorem leads_run (store : TestFileStore) {root : Path}
    (hscan : Scan.testFiles t root = .ok paths)
    (hfiles : List.Forall₂ (Judged t now) paths files) :
    ∃ r t', Leads (run store root) now t
        (Except.map (fun _ : Unit => ({ found := paths.length, files, finishedAt := now },
          files.foldl TestFileStore.save store)) r) t' ∧
      (r = .ok () ↔ t.isDir store.folder = .ok true ∧
        (∀ file ∈ files, Json.Encodable file.toDatum) ∧ t.isDir store.listFile ≠ .ok true ∧
        t.isDir store.candidateFile ≠ .ok true) ∧
      (r = .ok () → FileTree.SameDirectories t t' ∧
        Json.Holds t' store.listFile (.list (files.map TestFile.toDatum)) ∧
        Json.Holds t' store.candidateFile
          (.list ((files.filter TestFile.needsRefactoring).map TestFile.toDatum))) := by
  have hsettled : ∀ file ∈ files, file.settled = file := by
    intro file hfile
    obtain ⟨p, -, hjudged⟩ := exists_path_of_mem hfiles hfile
    exact hjudged.settled_eq
  have hsame : files.map TestFile.settled = files :=
    (List.map_congr_left hsettled).trans (List.map_id files)
  have hjudge : Leads (paths.mapM analyzeFile) now t (.ok files) t :=
    Leads.mapM (hfiles.imp fun _ _ h => h.leads)
  by_cases hdir : t.isDir store.folder = .ok true
  · obtain ⟨r, t', hsaved, hr, hheld⟩ := TestFileStore.leads_saveAll files now hdir
    rw [TestFileStore.candidates_of_settled hsettled] at hheld
    rw [hsame] at hsaved
    refine ⟨r, t', ?_, hr.trans (and_iff_right hdir).symm, hheld⟩
    refine (Leads.ask hscan).bind (hjudge.bind (hsaved.bind ?_))
    cases r with
    | ok u => exact (Leads.lift rfl).bind ((Acts.now.leads rfl).bind (Leads.pure _))
    | error f => exact Leads.bind_error ((Acts.lift (.error f)).leads rfl)
  · obtain ⟨f, hsaved⟩ := TestFileStore.leads_saveAll_closed files now hdir
    rw [hsame] at hsaved
    refine ⟨.error f, t, ?_, iff_of_false (by simp) fun h => hdir h.1, ?_⟩
    · refine (Leads.ask hscan).bind (hjudge.bind (hsaved.bind ?_))
      exact Leads.bind_error ((Acts.lift (.error f)).leads rfl)
    · intro h
      cases h

def blankText (n : Nat) : String := String.ofList (List.replicate n '\n')

private theorem linesOf_blankText (n : Nat) :
    linesOf (blankText n) = List.replicate (n + 1) "" := by
  rw [linesOf, blankText, String.toList_ofList, Text.splitLines]
  induction n with
  | zero => rfl
  | succ n ih =>
    rw [List.replicate_succ, List.splitOn_cons_eq_if_modifyHead, if_pos (beq_self_eq_true _),
      List.map_cons, ih]
    rfl

private theorem return_not_mem_blankText (n : Nat) : '\r' ∉ (blankText n).toList := by
  rw [blankText, String.toList_ofList]
  intro hmem
  exact absurd (List.eq_of_mem_replicate hmem) (by decide)

private theorem utf8ByteSize_blankText (n : Nat) : (blankText n).utf8ByteSize = n := by
  rw [blankText, String.utf8ByteSize_ofList]
  induction n with
  | zero => rfl
  | succ n ih =>
    rw [List.replicate_succ, String.utf8Len_cons, ih]
    rfl

private theorem blocks_blank : Suite.blocks (List.replicate 301 "") = [] := by
  rw [← List.length_eq_zero_iff]
  decide +kernel

/-- A workspace with a short test file, a long one, and two directories to keep things in. -/
def desk : Workspace :=
  { now := default
    files := { entries := [(["d"], .directory), (["o"], .directory), (["t"], .directory),
      (["t", "a.spec.ts"], .file (.bytes "test\n\n// end".toUTF8)),
      (["t", "b.spec.ts"], .file (.bytes (blankText 300).toUTF8))] } }

private theorem blocks_blankText : (Suite.outline (blankText 300)).blocks = [] := by
  rw [← blocks_blank, ← linesOf_blankText]
  rfl

private theorem readText_short :
    desk.files.readText (.ofString "t/a.spec.ts") = .ok "test\n\n// end" := by rfl

private theorem readContent_long :
    desk.files.readContent (.ofString "t/b.spec.ts") = .ok (.bytes (blankText 300).toUTF8) := rfl

private theorem readText_long :
    desk.files.readText (.ofString "t/b.spec.ts") = .ok (blankText 300) :=
  Json.readText_of_readContent (return_not_mem_blankText 300) readContent_long

theorem testFiles_desk :
    Scan.testFiles desk.files (.ofString "t") =
      .ok [.ofString "t/a.spec.ts", .ofString "t/b.spec.ts"] := by
  have hplace : desk.files.locate (.ofString "t") = .ok ["t"] := rfl
  have hbelow : desk.files.below ["t"] =
      [(["a.spec.ts"], .file (.bytes "test\n\n// end".toUTF8)),
        (["b.spec.ts"], .file (.bytes (blankText 300).toUTF8))] :=
    List.mergeSort_of_pairwise (by decide)
  exact Scan.testFiles_of_below hplace rfl
    [(["a.spec.ts"], .bytes "test\n\n// end".toUTF8),
      (["b.spec.ts"], .bytes (blankText 300).toUTF8)] hbelow

private theorem legible_short : Legible desk.files (.ofString "t/a.spec.ts") where
  text := ⟨_, readText_short⟩
  size c hc := by
    obtain rfl : Content.bytes "test\n\n// end".toUTF8 = c := Except.ok.inj hc
    decide +kernel
  tests s hs := by
    obtain rfl := Except.ok.inj (readText_short.symm.trans hs)
    decide +kernel

private theorem legible_long : Legible desk.files (.ofString "t/b.spec.ts") where
  text := ⟨_, readText_long⟩
  size c hc := by
    rw [readContent_long] at hc
    obtain rfl := Except.ok.inj hc
    have hsize : (Content.bytes (blankText 300).toUTF8).size = 300 :=
      utf8ByteSize_blankText 300
    rw [hsize]
    decide +kernel
  tests s hs := by
    rw [readText_long] at hs
    obtain rfl := Except.ok.inj hs
    rw [Suite.Outline.testCases, blocks_blankText]
    decide +kernel

theorem legible_desk :
    ∀ p ∈ [Path.ofString "t/a.spec.ts", .ofString "t/b.spec.ts"], Legible desk.files p := by
  simpa using ⟨legible_short, legible_long⟩

private theorem needsRefactoring_short
    (h : Judged desk.files desk.now (.ofString "t/a.spec.ts") file) :
    file.needsRefactoring = false := by
  obtain ⟨s, c, n, level, htext, hcontent, -, rfl⟩ := h.eq_outlined
  obtain rfl := Except.ok.inj (readText_short.symm.trans htext)
  obtain rfl : Content.bytes "test\n\n// end".toUTF8 = c := Except.ok.inj hcontent
  have hoff : (outlined (.ofString "t/a.spec.ts") "test\n\n// end" 12 default).needsRefactoring =
      false := by
    decide +kernel
  exact hoff

private theorem needsRefactoring_long
    (h : Judged desk.files desk.now (.ofString "t/b.spec.ts") file) :
    file.needsRefactoring = true ∧ file.advice = .extractShared := by
  obtain ⟨s, c, n, level, htext, -, -, rfl⟩ := h.eq_outlined
  obtain rfl := Except.ok.inj (readText_long.symm.trans htext)
  have hlong : ((linesOf (blankText 300)).length : Int) > 300 := by
    rw [linesOf_blankText, List.length_replicate]
    decide
  have hneeds : TestFile.needsRefactoring
      { outlined (.ofString "t/b.spec.ts") (blankText 300) c.size desk.now with
        quality := some { score := .real n.toFloat, level } } = true := by
    have hlines : decide (((linesOf (blankText 300)).length : Int) > 300) = true :=
      decide_eq_true hlong
    unfold TestFile.needsRefactoring
    exact Bool.or_eq_true_iff.mpr (.inl (Bool.or_eq_true_iff.mpr (.inr hlines)))
  refine ⟨hneeds, ?_⟩
  have hcategories : (Suite.outline (blankText 300)).categories = [] := by
    rw [Suite.Outline.categories, blocks_blankText]
    rfl
  have htests : (Suite.outline (blankText 300)).testCases = [] := by
    rw [Suite.Outline.testCases, blocks_blankText]
    rfl
  rw [TestFile.advice, hneeds]
  simp only [outlined, TestFile.measured, hcategories, htests]
  rfl

theorem judged_desk (h : List.Forall₂ (Judged desk.files desk.now)
      [.ofString "t/a.spec.ts", .ofString "t/b.spec.ts"] files) :
    ∃ short long, files = [short, long] ∧ short.facts.path = .ofString "t/a.spec.ts" ∧
      long.facts.path = .ofString "t/b.spec.ts" ∧ long.advice = .extractShared ∧
      [short, long].filter TestFile.needsRefactoring = [long] := by
  obtain ⟨short, rest, hshort, hrest, rfl⟩ := List.forall₂_cons_left_iff.mp h
  obtain ⟨long, none, hlong, hnone, rfl⟩ := List.forall₂_cons_left_iff.mp hrest
  obtain rfl := List.forall₂_nil_left_iff.mp hnone
  obtain ⟨hneeds, hadvice⟩ := needsRefactoring_long hlong
  refine ⟨short, long, rfl, hshort.path_eq, hlong.path_eq, hadvice, ?_⟩
  rw [List.filter_cons_of_neg (by simp [needsRefactoring_short hshort]),
    List.filter_cons_of_pos hneeds, List.filter_nil]

end Analysis
end SuiteTidy
