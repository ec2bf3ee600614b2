import SuiteTidy.Proofs.Analysis
import SuiteTidy.Proofs.Lists
import SuiteTidy.Proofs.Metrics.Points

/-!
The figures of an analysis. Every line of a file is code, comment or blank, and every file that is
judged has one level of complexity and one of quality, whether it is read from its record or counted
by its score. Main statement: an analysis that comes to an end tells as many files, candidates and
files of each level as it has kept records of, and it comes to an end if the records can be kept.
-/

set_option autoImplicit false
set_option relaxedAutoImplicit false

namespace SuiteTidy

/-! Levels of quality. -/

namespace Quality

private theorem ofScore_eq_ok {x : Number} {q : Quality} (h : ofScore x = .ok q) :
    Complexity.isScore q.score = true ∧ q.level = .ofScore q.score := by
  unfold ofScore at h
  split_ifs at h with hscore
  obtain rfl := Except.ok.inj h
  exact ⟨hscore, rfl⟩

private theorem judge_eq_ok {e : Evidence} {q : Quality} (h : judge e = .ok q) :
    Complexity.isScore q.score = true ∧ q.level = .ofScore q.score := by
  unfold judge at h
  cases hraw : (rawScore e).mapError Fault.number with
  | error f =>
    rw [hraw] at h
    cases h
  | ok x =>
    rw [hraw] at h
    exact ofScore_eq_ok h

end Quality

/-! What a store knows. -/

namespace TestFileStore

variable {s : TestFileStore} {x : Path × TestFile}

private theorem mem_known_save {t : TestFile} (h : x ∈ (s.save t).known) :
    x ∈ s.known ∨ x.2 = t := by
  change x ∈ save.place t s.known at h
  generalize s.known = known at h ⊢
  induction known with
  | nil =>
    rw [save.place, List.mem_singleton] at h
    exact .inr (by rw [h])
  | cons first rest ih =>
    obtain ⟨k, u⟩ := first
    rw [save.place] at h
    split_ifs at h with hk
    · rcases List.mem_cons.mp h with rfl | h
      · exact .inr rfl
      · exact .inl (List.mem_cons_of_mem _ h)
    · rcases List.mem_cons.mp h with rfl | h
      · exact .inl List.mem_cons_self
      · rcases ih h with h | h
        · exact .inl (List.mem_cons_of_mem _ h)
        · exact .inr h

private theorem mem_known_foldl {ts : List TestFile} (h : x ∈ (ts.foldl save s).known) :
    x ∈ s.known ∨ x.2 ∈ ts := by
  induction ts generalizing s with
  | nil => exact .inl h
  | cons t ts ih =>
    rcases ih h with h | h
    · rcases mem_known_save h with h | h
      · exact .inl h
      · exact .inr (h ▸ List.mem_cons_self)
    · exact .inr (List.mem_cons_of_mem _ h)

end TestFileStore

namespace Analysis

open SuiteTidy.Work

private theorem less_eq_not_atMost {x : Number} (hx : x.atMost x = true) (limit : Int) :
    x.less (.int limit) = !(Number.int limit).atMost x := by
  have hlimit : (Number.int limit).atMost (.int limit) = true :=
    (Number.atMost_iff _ _).mpr ⟨_, _, rfl, rfl, le_rfl⟩
  have hnot := Number.not_less_iff hlimit hx
  cases hless : x.less (.int limit) <;> cases hmost : (Number.int limit).atMost x <;>
    simp_all

private theorem atMost_of_le {x : Number} {a b : Int} (hab : a ≤ b)
    (hb : (Number.int b).atMost x = true) : (Number.int a).atMost x = true := by
  refine Number.atMost_trans ((Number.atMost_iff _ _).mpr ⟨_, _, rfl, rfl, ?_⟩) hb
  exact Decimal.strictMono_ofRat.le_iff_le.mpr (by exact_mod_cast hab)

private theorem isCounted_eq {x : Number} (h : Complexity.isScore x = true) (l : QualityLevel) :
    isCounted x l = (QualityLevel.ofScore x == l) := by
  have hx : x.atMost x = true :=
    Number.atMost_self_of_atMost (Bool.and_eq_true_iff.mp h).2
  have hgood : (Number.int 80).atMost x = true → (Number.int 60).atMost x = true :=
    atMost_of_le (by decide)
  have hfair : (Number.int 60).atMost x = true → (Number.int 40).atMost x = true :=
    atMost_of_le (by decide)
  -- The lowest limit that the score does not reach decides its level.
  rw [QualityLevel.ofScore]
  by_cases h80 : (Number.int 80).atMost x = true
  · have h60 := hgood h80
    have h40 := hfair h60
    cases l <;> simp [isCounted, less_eq_not_atMost hx, h80, h60, h40]
  · by_cases h60 : (Number.int 60).atMost x = true
    · have h40 := hfair h60
      cases l <;> simp [isCounted, less_eq_not_atMost hx, h80, h60, h40]
    · by_cases h40 : (Number.int 40).atMost x = true
      · cases l <;> simp [isCounted, less_eq_not_atMost hx, h80, h60, h40]
      · cases l <;> simp [isCounted, less_eq_not_atMost hx, h80, h60, h40]

/-! Lines of code, comments and blank lines. -/

private theorem isBlankLine_of_isCommentLine {line : String} (h : isCommentLine line = true) :
    isBlankLine line = false := by
  unfold isCommentLine at h
  unfold isBlankLine
  cases htrim : Text.trim line.toList with
  | nil =>
    rw [htrim] at h
    cases h
  | cons c cs => rfl

private theorem countP_lines (lines : List String) :
    (lines.countP fun l => !isBlankLine l && !isCommentLine l) + lines.countP isCommentLine +
      lines.countP isBlankLine = lines.length := by
  have hcode : ∀ l, (!isBlankLine l && !isCommentLine l) = true → isCommentLine l = false := by
    intro l hl
    exact Bool.not_eq_true' _ |>.mp (Bool.and_eq_true_iff.mp hl).2
  have htext : ∀ l, (!isBlankLine l && !isCommentLine l || isCommentLine l) = true →
      isBlankLine l = false := by
    intro l hl
    rcases Bool.or_eq_true_iff.mp hl with hl | hl
    · exact Bool.not_eq_true' _ |>.mp (Bool.and_eq_true_iff.mp hl).1
    · exact isBlankLine_of_isCommentLine hl
  rw [Lists.countP_add_countP hcode, Lists.countP_add_countP htext, List.countP_eq_length]
  intro l _
  cases isBlankLine l <;> cases isCommentLine l <;> rfl

/-! Files that are judged. -/

section Judged

variable {t : FileTree} {now : Moment} {p : Path} {file : TestFile} {paths : List Path}
  {files : List TestFile}

private theorem Judged.lines_eq (h : Judged t now p file) :
    file.facts.codeLines + file.facts.commentLines + file.facts.blankLines =
      file.facts.totalLines := by
  obtain ⟨s, c, n, level, -, -, -, rfl⟩ := h.eq_outlined
  have hlines := countP_lines (linesOf s)
  change (((linesOf s).countP fun l => !isBlankLine l && !isCommentLine l : Nat) : Int) +
    ((linesOf s).countP isCommentLine : Nat) + ((linesOf s).countP isBlankLine : Nat) =
      ((linesOf s).length : Nat)
  omega

private theorem Judged.quality_eq (h : Judged t now p file) :
    ∃ q, file.quality = some q ∧ Complexity.isScore q.score = true ∧
      q.level = .ofScore q.score := by
  obtain ⟨s, c, -, -, hjudged⟩ := h
  rw [judged_eq_outlined] at hjudged
  cases hquality : (outlined p s c.size now).judgedQuality (.int (Suite.outline s).cyclomatic)
      (.int (outlined p s c.size now).qualitySmells.length) with
  | error f =>
    rw [hquality] at hjudged
    cases hjudged
  | ok q =>
    rw [hquality] at hjudged
    obtain rfl := Except.ok.inj hjudged
    exact ⟨q, rfl, Quality.judge_eq_ok hquality⟩

def carries (heading word : String) (record : Datum) : Bool :=
  match (record.field? heading).bind (Datum.field? "level") with
  | some (.text found) => found == word
  | _ => false

private theorem carries_complexity (h : Judged t now p file) (l : ComplexityLevel) :
    carries "complexity" l.word file.toDatum = (file.complexityNow.level == l) := by
  have hfield : file.toDatum.field? "complexity" =
      some (.ofOption TestFile.complexitySummary file.complexity) := rfl
  have hlevel : carries "complexity" l.word file.toDatum =
      (file.complexityNow.level.word == l.word) := by
    rw [carries, hfield, TestFile.complexityNow, h.complexity_eq]
    rfl
  rw [hlevel]
  cases file.complexityNow.level <;> cases l <;> rfl

/-- The level of quality that a file has, the lowest if it was not judged. -/
def qualityLevel (file : TestFile) : QualityLevel :=
  (file.quality.map Quality.level).getD .poor

private theorem carries_quality (h : Judged t now p file) (l : QualityLevel) :
    carries "quality" l.word file.toDatum = (qualityLevel file == l) := by
  obtain ⟨q, hquality, -⟩ := h.quality_eq
  have hfield : file.toDatum.field? "quality" = some (.ofOption Quality.toDatum file.quality) := rfl
  have hlevel : qualityLevel file = q.level := by rw [qualityLevel, hquality]; rfl
  have hword : carries "quality" l.word file.toDatum = (q.level.word == l.word) := by
    rw [carries, hfield, hquality]
    rfl
  rw [hword, hlevel]
  cases q.level <;> cases l <;> rfl

private theorem isCounted_qualityLevel (h : Judged t now p file) (l : QualityLevel) :
    (file.quality.any fun q => isCounted q.score l) = (qualityLevel file == l) := by
  obtain ⟨q, hquality, hscore, hlevel⟩ := h.quality_eq
  rw [qualityLevel, hquality, Option.any_some, isCounted_eq hscore, ← hlevel]
  rfl

/-! Figures and records. -/

def spread (heading : String) (words : List String) (records : List Datum) : List (String × Nat) :=
  words.map fun word => (word, records.countP (carries heading word))

/-- Files of which each record names the level of the file are spread over the levels, and each is
counted once. -/
private theorem spread_toDatum {β : Type} [DecidableEq β] (heading : String) (levels : List β)
    (word : β → String) (level : TestFile → β) (hnodup : levels.Nodup) (hall : ∀ b, b ∈ levels)
    (h : ∀ file ∈ files, ∀ b, carries heading (word b) file.toDatum = (level file == b)) :
    spread heading (levels.map word) (files.map TestFile.toDatum) =
        levels.map (fun b => (word b, files.countP fun file => level file == b)) ∧
      ((spread heading (levels.map word) (files.map TestFile.toDatum)).map (·.2)).foldr
        (· + ·) 0 = files.length := by
  have hspread : spread heading (levels.map word) (files.map TestFile.toDatum) =
      levels.map (fun b => (word b, files.countP fun file => level file == b)) := by
    rw [spread, List.map_map]
    refine List.map_congr_left fun b _ => congrArg (Prod.mk (word b)) ?_
    rw [List.countP_map]
    refine List.countP_congr fun file hfile => ?_
    rw [Function.comp_apply, h file hfile]
  refine ⟨hspread, ?_⟩
  rw [hspread, List.map_map]
  exact (Lists.foldr_countP hnodup level files).trans
    (List.countP_eq_length.mpr fun file _ => decide_eq_true (hall (level file)))

def complexitySpread (records : List Datum) : List (String × Nat) :=
  spread "complexity" (ComplexityLevel.all.map ComplexityLevel.word) records

def qualitySpread (records : List Datum) : List (String × Nat) :=
  spread "quality" (QualityLevel.all.map QualityLevel.word) records

def figure? (a : Analysis) (heading : String) : Option Datum :=
  (a.toDatum.field? "statistics").bind (Datum.field? heading)

def countsDatum (counts : List (String × Nat)) : Datum :=
  .record (counts.map fun c => (c.1, .nat c.2))

/-- The figures of an analysis are those of the records of its files and of its candidates. -/
structure Fits (a : Analysis) (records needed : List Datum) : Prop where
  found : a.toDatum.field? "total_files" = some (.nat records.length)
  analyzed : a.toDatum.field? "analyzed_files" = some (.nat records.length)
  candidates : a.toDatum.field? "candidates_for_refactoring" = some (.nat needed.length)
  complexity : records ≠ [] →
    a.figure? "complexity_distribution" = some (countsDatum (complexitySpread records))
  quality : records ≠ [] →
    a.figure? "quality_distribution" = some (countsDatum (qualitySpread records))
  complexity_sum : ((complexitySpread records).map (·.2)).foldr (· + ·) 0 = records.length
  quality_sum : ((qualitySpread records).map (·.2)).foldr (· + ·) 0 = records.length

private theorem spread_complexity (h : List.Forall₂ (Judged t now) paths files) :
    complexitySpread (files.map TestFile.toDatum) =
        ComplexityLevel.all.map (fun l => (l.word, withLevel files l)) ∧
      ((complexitySpread (files.map TestFile.toDatum)).map (·.2)).foldr (· + ·) 0 =
        files.length := by
  refine spread_toDatum "complexity" ComplexityLevel.all ComplexityLevel.word
    (fun file => file.complexityNow.level) (by decide) (by intro l; cases l <;> decide) ?_
  intro file hfile l
  obtain ⟨p, -, hjudged⟩ := exists_path_of_mem h hfile
  exact carries_complexity hjudged l

private theorem spread_quality (h : List.Forall₂ (Judged t now) paths files) :
    qualitySpread (files.map TestFile.toDatum) =
        QualityLevel.all.map (fun l => (l.word, withQuality files l)) ∧
      ((qualitySpread (files.map TestFile.toDatum)).map (·.2)).foldr (· + ·) 0 =
        files.length := by
  have hcarries : ∀ file ∈ files, ∀ l : QualityLevel,
      carries "quality" l.word file.toDatum = (qualityLevel file == l) := by
    intro file hfile l
    obtain ⟨p, -, hjudged⟩ := exists_path_of_mem h hfile
    exact carries_quality hjudged l
  obtain ⟨hspread, hsum⟩ := spread_toDatum "quality" QualityLevel.all QualityLevel.word
    qualityLevel (by decide) (by intro l; cases l <;> decide) hcarries
  refine ⟨hspread.trans (List.map_congr_left fun l _ => congrArg (Prod.mk l.word) ?_), hsum⟩
  -- The figures count by scores what the records name.
  refine List.countP_congr fun file hfile => ?_
  obtain ⟨p, -, hjudged⟩ := exists_path_of_mem h hfile
  rw [isCounted_qualityLevel hjudged]

private theorem figure?_of_ne_nil {a : Analysis} (h : a.files ≠ []) :
    a.figure? "complexity_distribution" =
        some (countsDatum (ComplexityLevel.all.map fun l => (l.word, withLevel a.files l))) ∧
      a.figure? "quality_distribution" =
        some (countsDatum (QualityLevel.all.map fun l => (l.word, withQuality a.files l))) := by
  have hfield : a.toDatum.field? "statistics" = some a.statistics := rfl
  rw [figure?, figure?, hfield, statistics, if_neg (by simpa using h)]
  exact ⟨rfl, rfl⟩

private theorem fits_toDatum (h : List.Forall₂ (Judged t now) paths files) (finishedAt : Moment) :
    Fits { found := paths.length, files, finishedAt } (files.map TestFile.toDatum)
      ((files.filter TestFile.needsRefactoring).map TestFile.toDatum) := by
  obtain ⟨hcomplexity, hcomplexities⟩ := spread_complexity h
  obtain ⟨hquality, hqualities⟩ := spread_quality h
  have hlength : (files.map TestFile.toDatum).length = files.length := List.length_map _
  exact
    { found := by rw [hlength, ← h.length_eq]; rfl
      analyzed := by rw [hlength]; rfl
      candidates := by rw [List.length_map]; rfl
      complexity := by
        intro hne
        rw [hcomplexity]
        exact (figure?_of_ne_nil fun hnil => hne (List.map_eq_nil_iff.mpr hnil)).1
      quality := by
        intro hne
        rw [hquality]
        exact (figure?_of_ne_nil fun hnil => hne (List.map_eq_nil_iff.mpr hnil)).2
      complexity_sum := hcomplexities.trans hlength.symm
      quality_sum := hqualities.trans hlength.symm }

theorem Judged.unique {file' : TestFile} (h : Judged t now p file) (h' : Judged t now p file') :
    file = file' := by
  obtain ⟨s, c, htext, hcontent, hjudged⟩ := h
  obtain ⟨s', c', htext', hcontent', hjudged'⟩ := h'
  obtain rfl := Except.ok.inj (htext.symm.trans htext')
  obtain rfl := Except.ok.inj (hcontent.symm.trans hcontent')
  exact Except.ok.inj (hjudged.symm.trans hjudged')

private theorem forall_mem_judged_iff (h : List.Forall₂ (Judged t now) paths files)
    {good : TestFile → Prop} :
    (∀ p ∈ paths, ∀ file, Judged t now p file → good file) ↔ ∀ file ∈ files, good file := by
  constructor
  · intro hgood file hfile
    obtain ⟨p, hp, hjudged⟩ := exists_path_of_mem h hfile
    exact hgood p hp file hjudged
  · intro hgood p hp file hjudged
    induction h with
    | nil => cases hp
    | cons hfirst _ ih =>
      rw [List.forall_mem_cons] at hgood
      rcases List.mem_cons.mp hp with rfl | hp
      · rw [hjudged.unique hfirst]
        exact hgood.1
      · exact ih hgood.2 hp

end Judged

/-- An analysis of files that are all text comes to its end if there is a directory for its two
lists, nothing stands in their place and no number in a record has too many digits. Then every line
of each file that it has saved is counted once, and its figures fit the records in the two lists, of
which the first has one for each file that was found. -/
theorem run_addsUp (store : TestFileStore) {root : Path} {w : Workspace} {paths : List Path}
    (hscan : Scan.testFiles w.files root = .ok paths)
    (htext : ∀ p ∈ paths, ∃ s, w.files.readText p = .ok s) :
    ∃ r w', run store root w = (r, w') ∧
      ((∃ result, r = .ok result) ↔ w.files.isDir store.folder = .ok true ∧
        (∀ p ∈ paths, ∀ file, Judged w.files w.now p file → Json.Encodable file.toDatum) ∧
        w.files.isDir store.listFile ≠ .ok true ∧
        w.files.isDir store.candidateFile ≠ .ok true) ∧
      ∀ a after, r = .ok (a, after) →
        (∀ x ∈ after.known, x ∈ store.known ∨ x.2 ∈ a.files) ∧
        (∀ file ∈ a.files, file.facts.codeLines + file.facts.commentLines +
          file.facts.blankLines = file.facts.totalLines) ∧
        a.files.length = paths.length ∧
        ∃ records needed,
          records = a.files.map TestFile.toDatum ∧
          Json.loadStrict store.listFile w' = (.ok (.list records), w') ∧
          Json.loadStrict store.candidateFile w' = (.ok (.list needed), w') ∧
          a.Fits records needed := by
  obtain ⟨files, hfiles⟩ := exists_judged_texts htext w.now
  obtain ⟨r, t', hleads, hr, hkept⟩ := leads_run store hscan hfiles
  obtain ⟨w', hrun, -, rfl⟩ := hleads w rfl rfl
  refine ⟨_, w', hrun, ?_, ?_⟩
  · rw [forall_mem_judged_iff hfiles, ← hr]
    cases r with
    | error f => simp [Except.map]
    | ok u => simp [Except.map]
  · intro a after heq
    cases r with
    | error f => cases heq
    | ok u =>
      obtain ⟨rfl, rfl⟩ := Prod.mk.inj (Except.ok.inj heq)
      obtain ⟨-, hlist, hcandidates⟩ := hkept rfl
      refine ⟨fun x => TestFileStore.mem_known_foldl, fun file hfile => ?_, hfiles.length_eq.symm,
        _, _, rfl, hlist.loadStrict_eq rfl, hcandidates.loadStrict_eq rfl,
        fits_toDatum hfiles w.now⟩
      obtain ⟨p, -, hjudged⟩ := exists_path_of_mem hfiles hfile
      exact hjudged.lines_eq

theorem run_addsUp_desk :
    Scan.testFiles desk.files (.ofString "t") =
      .ok [.ofString "t/a.spec.ts", .ofString "t/b.spec.ts"] ∧
    (∀ p ∈ [Path.ofString "t/a.spec.ts", .ofString "t/b.spec.ts"],
      ∃ s, desk.files.readText p = .ok s) ∧
    ∃ a after w' short long needed,
      run { folder := .ofString "d" } (.ofString "t") desk = (.ok (a, after), w') ∧
      a.files = [short, long] ∧ short.facts.path = .ofString "t/a.spec.ts" ∧
      Json.loadStrict ((Path.ofString "d").below "all_files.json") w' =
        (.ok (.list [short.toDatum, long.toDatum]), w') ∧
      Json.loadStrict ((Path.ofString "d").below "candidates.json") w' =
        (.ok (.list needed), w') ∧
      a.toDatum.field? "total_files" = some (.nat 2) ∧
      a.toDatum.field? "candidates_for_refactoring" = some (.nat 1) ∧ needed.length = 1 ∧
      a.Fits [short.toDatum, long.toDatum] needed := by
  have htext : ∀ p ∈ [Path.ofString "t/a.spec.ts", .ofString "t/b.spec.ts"],
      ∃ s, desk.files.readText p = .ok s := fun p hp => (legible_desk p hp).text
  refine ⟨testFiles_desk, htext, ?_⟩
  obtain ⟨r, w', hrun, hends, hall⟩ :=
    run_addsUp { folder := .ofString "d" } testFiles_desk htext
  have hwritten : ∀ p ∈ [Path.ofString "t/a.spec.ts", .ofString "t/b.spec.ts"], ∀ file,
      Judged desk.files desk.now p file → Json.Encodable file.toDatum := fun p hp _ hjudged =>
    Json.encodable_of_plain (hjudged.plain (legible_desk p hp))
  obtain ⟨⟨a, after⟩, rfl⟩ := hends.mpr ⟨rfl, hwritten, by decide, by decide⟩
  obtain ⟨-, -, -, records, needed, rfl, hlist, hcandidates, hfits⟩ := hall a after rfl
  -- The files of the analysis are those that are found on the desk.
  obtain ⟨files, hfiles⟩ := exists_judged_texts htext desk.now
  obtain ⟨r', t', hleads, -⟩ := leads_run { folder := .ofString "d" } testFiles_desk hfiles
  obtain ⟨v, hrun', -⟩ := hleads desk rfl rfl
  obtain ⟨short, long, rfl, hshort, -, -, hneedy⟩ := judged_desk hfiles
  have hsame : a.files = [short, long] := by
    rw [hrun] at hrun'
    cases r' with
    | error f => cases (Prod.mk.inj hrun').1
    | ok u => exact congrArg Analysis.files (Prod.mk.inj (Except.ok.inj (Prod.mk.inj hrun').1)).1
  have hone : a.toDatum.field? "candidates_for_refactoring" = some (.nat 1) := by
    have hfield : a.toDatum.field? "candidates_for_refactoring" =
        some (.nat (a.files.filter TestFile.needsRefactoring).length) := rfl
    rw [hfield, hsame, hneedy]
    rfl
  have hlength : needed.length = 1 := by
    have hcount := hfits.candidates.symm.trans hone
    simpa [Datum.nat] using hcount
  rw [hsame] at hlist hfits
  exact ⟨a, after, w', short, long, needed, hrun, hsame, hshort, hlist, hcandidates, hfits.found,
    hone, hlength, hfits⟩

end Analysis
end SuiteTidy
