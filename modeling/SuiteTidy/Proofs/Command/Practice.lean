import SuiteTidy.Proofs.Analysis
import SuiteTidy.Proofs.Lists
import SuiteTidy.Proofs.Plan.Advice
import SuiteTidy.Proofs.Scan

/-!
Learning, and practice with what was learned. Both commands pass their findings on in documents, and
nothing is lost or changed on the way. Main statement: after learning and practice the plans are
those of the files that need refactoring, in the order in which the files were found.
-/

set_option autoImplicit false
set_option relaxedAutoImplicit false

namespace SuiteTidy

open SuiteTidy.FileTree SuiteTidy.Work

variable {now : Moment} {t found : FileTree}

private theorem TestFileStore.leads_openAt {folder : Path} {names : List String}
    (h : CanKeep t folder names found) : Leads (openAt folder) now t (.ok { folder }) found := by
  have hmade : Leads (Work.makeDirectories folder) now t (.ok ()) found :=
    (acts_makeDirectoriesTo folder folder.parts.length).leads h.made
  exact hmade.bind (Leads.pure _)

namespace Learning

private theorem leads_showTable (table : Table) : Leads (showTable table) now t (.ok ()) t :=
  Leads.present_bind _ (Leads.present _)

private theorem leads_showResults (a : Analysis) (output : Path) :
    Leads (showResults a output) now t (.ok ()) t := by
  refine (leads_showTable _).bind ?_
  have hlevels : Leads (showLevels a) now t (.ok ()) t :=
    (leads_showTable _).bind (leads_showTable _)
  split
  · refine hlevels.bind ?_
    iterate 3 refine Leads.present_bind _ ?_
    exact Leads.present _
  · iterate 3 refine Leads.present_bind _ ?_
    exact Leads.present _

/-- What learning leaves in the directory of its findings. -/
structure Findings (t : FileTree) (folder : Path) (files : List TestFile) : Prop where
  isDir : t.isDir folder = .ok true
  all : Json.Holds t (folder.below "all_files.json") (.list (files.map TestFile.toDatum))
  candidates : Json.Holds t (folder.below "candidates.json")
    (.list ((files.filter TestFile.needsRefactoring).map TestFile.toDatum))

end Learning

namespace Practice

open Analysis (Legible desk testFiles_desk legible_desk judged_desk)

def plansOf (files : List TestFile) : List Datum :=
  files.zipIdx.map fun x =>
    planRecord (x.2 + 1) x.1.facts.path.text x.1.advice.word x.1.refactoringReason

private theorem plansFor_toDatum (files : List TestFile) :
    plansFor (files.map TestFile.toDatum) = .ok (plansOf files) := by
  have hfrom : ∀ n, ((files.map TestFile.toDatum).zipIdx n).mapM
      (fun x => planFor (x.2 + 1) x.1) = .ok ((files.zipIdx n).map fun x =>
        planRecord (x.2 + 1) x.1.facts.path.text x.1.advice.word x.1.refactoringReason) := by
    induction files with
    | nil => exact fun _ => rfl
    | cons file files ih =>
      intro n
      simp only [List.map_cons, List.zipIdx_cons, List.mapM_cons, planFor_toDatum, ih, bind,
        Except.bind, pure, Except.pure]
  exact hfrom 0

def IsPlan (plan : Datum) : Prop :=
  ∃ number source action reason, plan = planRecord number source action reason

private theorem isPlan_of_mem {files : List TestFile} {plan : Datum} (h : plan ∈ plansOf files) :
    IsPlan plan := by
  obtain ⟨_, -, rfl⟩ := List.mem_map.mp h
  exact ⟨_, _, _, _, rfl⟩

theorem IsPlan.plain {plan : Datum} (h : IsPlan plan) : Json.Plain plan := by
  obtain ⟨number, source, action, reason, rfl⟩ := h
  have hpriority : Json.Plain (.int 3) := by
    rw [Json.Plain]
    decide
  refine Json.plain_record (by simp) ?_
  simp only [List.forall_mem_cons]
  exact ⟨Json.plain_text _, Json.plain_text _, Json.plain_text _, Json.plain_text _,
    Json.plain_real _, hpriority, Json.plain_text _, by simp⟩

/-! Showing plans never fails. -/

private theorem exists_countActions {plans : List Datum} (h : ∀ plan ∈ plans, IsPlan plan) :
    ∃ counts, countActions plans = .ok counts := by
  refine Lists.exists_foldlM_eq_ok (fun counts plan hplan => ?_) []
  obtain ⟨number, source, action, reason, rfl⟩ := h plan hplan
  have haction : (planRecord number source action reason).item "action" = .ok (.text action) := rfl
  have hkey : isKey (.text action) = true := rfl
  simp only [haction, hkey, Bool.not_true, Bool.false_eq_true, if_false, bind, Except.bind, pure,
    Except.pure]
  split <;> exact ⟨_, rfl⟩

private theorem leads_showPreview {plans : List Datum} (h : ∀ plan ∈ plans, IsPlan plan) :
    Leads (showPreview plans) now t (.ok ()) t := by
  obtain ⟨rows, hrows⟩ : ∃ rows, plans.mapM previewRow = .ok rows := by
    refine Lists.exists_mapM_eq_ok fun plan hplan => ?_
    obtain ⟨number, source, action, reason, rfl⟩ := h plan hplan
    exact ⟨_, rfl⟩
  exact (Leads.lift hrows).bind (Learning.leads_showTable _)

private theorem leads_showResults {plans : List Datum} (output : Path)
    (h : ∀ plan ∈ plans, IsPlan plan) :
    Leads (showResults plans output) now t (.ok ()) t := by
  obtain ⟨counts, hcounts⟩ := exists_countActions h
  refine (Leads.lift hcounts).bind ((Learning.leads_showTable _).bind ?_)
  split
  · refine Leads.bind (leads_showPreview fun plan hplan => h plan (List.mem_of_mem_take hplan)) ?_
    iterate 4 refine Leads.present_bind _ ?_
    exact Leads.present _
  · iterate 4 refine Leads.present_bind _ ?_
    exact Leads.present _

private theorem planName : FileName "all_plans.json" :=
  ⟨by decide, by decide, by decide, by decide, by decide, by decide⟩

private theorem leads_run {findings output : Path} {files : List TestFile}
    (h : Learning.Findings t findings files) (hkeep : CanKeep t output ["all_plans.json"] found)
    (verbose : Bool) :
    ∃ t', Leads (run findings output none none verbose) now t (.ok ()) t' ∧
      Learning.Findings t' findings files ∧
      Json.Holds t' (output.below "all_plans.json")
        (.list (plansOf (files.filter TestFile.needsRefactoring))) := by
  have hplans : ∀ plan ∈ plansOf (files.filter TestFile.needsRefactoring), IsPlan plan :=
    fun _ => isPlan_of_mem
  obtain ⟨t', hstore, hwrote, hheld⟩ := Json.leads_store now Json.Layout.standard_exact rfl
    (Json.plain_list fun plan hplan => (hplans plan hplan).plain) planName hkeep.isDir
    (hkeep.free _ (by simp))
  -- Making the directory for the plans and writing them leaves the findings alone.
  have hmade : t.isDir findings = .ok true → found.isDir findings = .ok true :=
    isDir_of_keepsDirectories hkeep.furnished.directories_stay
  refine ⟨t', ?_, ⟨isDir_of_keepsDirectories hwrote.sameDirectories.1 (hmade h.isDir),
    (h.all.furnished hkeep.furnished).wroteIn TestFileStore.listName hwrote (by decide),
    (h.candidates.furnished hkeep.furnished).wroteIn TestFileStore.candidateName hwrote
      (by decide)⟩, hheld⟩
  have hopen : CanKeep found findings [] found :=
    ⟨makeDirectoriesTo_of_isDir (hmade h.isDir), by simp⟩
  refine Leads.present_bind _ ?_
  refine (Leads.ask h.candidates.exists_).bind ?_
  simp only [Bool.not_true, Bool.false_eq_true, if_false]
  refine h.candidates.leads_loadStrict.bind ?_
  cases verbose
  case' true => refine (Leads.lift rfl).bind (Leads.present_bind _ ?_)
  all_goals
    refine (Leads.lift rfl).bind ?_
    refine ((acts_makeDirectoriesTo output output.parts.length).leads hkeep.made).bind ?_
    refine (TestFileStore.leads_openAt hopen).bind ?_
    refine (Leads.lift rfl).bind (Leads.present_bind _ ?_)
    refine (Leads.lift (plansFor_toDatum _)).bind ?_
    exact hstore.bind (leads_showResults output hplans)

end Practice
end SuiteTidy
