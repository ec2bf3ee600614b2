import SuiteTidy.Proofs.Json.Refusal
import SuiteTidy.TestFile.Store

/-!
The two lists of a store of test files. They are written if no integer in them has too many digits
and no directory stands in their place. A file is on the second list if its record on the first says
that it needs refactoring, and its two records are the same but for the complexity: only the second
list has it if it was not known before. Main statement: the second list is a part of the first
exactly if the complexity of each file on it was known.
-/

set_option autoImplicit false
set_option relaxedAutoImplicit false

namespace SuiteTidy

/-! Records that can be written. -/

namespace Json

private theorem plain_int_of_encodable {n : Int} (h : Encodable (.int n)) : Plain (.int n) := by
  rw [Encodable] at h
  rwa [Plain]

private theorem plain_number_of_encodable {x : Number} (h : Encodable (.ofNumber x)) :
    Plain (.ofNumber x) := by
  cases x with
  | int n => exact plain_int_of_encodable h
  | real x => exact plain_real x

private theorem plain_record_of_encodable {fs : List (String × Datum)}
    (hkeys : (fs.map Prod.fst).Nodup) (hfields : ∀ f ∈ fs, Encodable f.2 → Plain f.2)
    (h : Encodable (.record fs)) : Plain (.record fs) :=
  plain_record hkeys fun f hf => hfields f hf (encodable_record_iff.mp h f hf)

theorem encodable_of_plain {d : Datum} (h : Plain d) : Encodable d := by
  obtain ⟨s, hs, -⟩ := render_form Layout.standard_stored rfl h
  exact encodable_of_text rfl rfl (text_of_render hs)

open FileTree Work in
private theorem leads_store_outcome (now : Moment) {d : Datum} (hd : Encodable d → Plain d)
    {t : FileTree} {folder : Path} {name : String} (hname : FileName name)
    (hdir : t.isDir folder = .ok true) :
    ∃ r t', Leads (store .stored d (folder.below name)) now t r t' ∧
      (r = .ok () ↔ Encodable d ∧ t.isDir (folder.below name) ≠ .ok true) ∧
      (r = .ok () → WroteIn folder name t t' ∧ Holds t' (folder.below name) d) := by
  by_cases hfits : Encodable d ∧ t.isDir (folder.below name) ≠ .ok true
  · obtain ⟨t', hstore, hheld⟩ :=
      leads_store now Layout.standard_stored rfl (hd hfits.1) hname hdir hfits.2
    exact ⟨.ok (), t', hstore, iff_of_true rfl hfits, fun _ => hheld⟩
  · have hone : OneName name := ⟨hname.slash, hname.null, hname.nonempty, hname.dot, hname.dots⟩
    have hsort : Layout.stored.sortKeys = false := rfl
    obtain ⟨f, hstore⟩ :=
      leads_store_refused now hsort rfl hone hdir fun h => hfits ⟨h.1, h.2.2⟩
    refine ⟨.error f, t, hstore, iff_of_false (by simp) hfits, ?_⟩
    intro h
    cases h

end Json

namespace TestFile

private theorem plain_score_of_encodable {x : Number} {word : String}
    (h : Json.Encodable (.record [("score", .ofNumber x), ("level", .text word)])) :
    Json.Plain (.record [("score", .ofNumber x), ("level", .text word)]) := by
  refine Json.plain_record_of_encodable (by simp) ?_ h
  simp only [List.forall_mem_cons]
  exact ⟨Json.plain_number_of_encodable, fun _ => Json.plain_text word, by simp⟩

private theorem plain_optional_of_encodable {α : Type} {f : α → Datum} {x : Option α}
    (hf : ∀ a, Json.Encodable (f a) → Json.Plain (f a)) (h : Json.Encodable (.ofOption f x)) :
    Json.Plain (.ofOption f x) := by
  cases x with
  | none => simp [Datum.ofOption, Json.Plain]
  | some a => exact hf a h

private theorem plain_of_encodable {t : TestFile} (h : Json.Encodable t.toDatum) :
    Json.Plain t.toDatum := by
  have hcomplexity : Json.Encodable (.ofOption complexitySummary t.complexity) →
      Json.Plain (.ofOption complexitySummary t.complexity) :=
    plain_optional_of_encodable fun _ => plain_score_of_encodable
  have hquality : Json.Encodable (.ofOption Quality.toDatum t.quality) →
      Json.Plain (.ofOption Quality.toDatum t.quality) :=
    plain_optional_of_encodable fun _ => plain_score_of_encodable
  refine Json.plain_record_of_encodable (by simp) ?_ h
  simp only [List.forall_mem_cons]
  exact ⟨fun _ => Json.plain_text _, fun _ => Json.plain_text _,
    fun _ => Json.plain_text _, Json.plain_int_of_encodable, Json.plain_int_of_encodable,
    Json.plain_int_of_encodable, fun _ => Json.plain_texts _, Json.plain_int_of_encodable,
    Json.plain_int_of_encodable, hcomplexity, hquality, fun _ => Json.plain_bool _,
    fun _ => Json.plain_text _, fun _ => Json.plain_text _, fun _ => Json.plain_text _,
    by simp⟩

/-! Records before and after a complexity is settled. -/

/-- Two records that differ at most in the complexity, which the second of them has. -/
def Completed (a b : Datum) : Prop :=
  ∃ before after x y, a = .record (before ++ ("complexity", x) :: after) ∧
    b = .record (before ++ ("complexity", y) :: after) ∧ y ≠ .null ∧ (x = y ∨ x = .null)

def saysNeeded (d : Datum) : Bool :=
  match d.field? "needs_refactoring" with
  | some (.bool b) => b
  | _ => false

private theorem filter_saysNeeded (ts : List TestFile) :
    (ts.map toDatum).filter saysNeeded = (ts.filter needsRefactoring).map toDatum := by
  rw [List.filter_map]
  rfl

private theorem toDatum_settled (t : TestFile) :
    ∃ before after,
      t.toDatum = .record
        (before ++ ("complexity", .ofOption complexitySummary t.complexity) :: after) ∧
      t.settled.toDatum = .record
        (before ++ ("complexity", complexitySummary t.complexityNow) :: after) :=
  ⟨[_, _, _, _, _, _, _, _, _], [_, _, _, _, _], rfl, rfl⟩

private theorem settled_eq_self {t : TestFile} (h : t.complexity ≠ none) : t.settled = t := by
  obtain ⟨c, hc⟩ := Option.ne_none_iff_exists'.mp h
  rw [settled, complexityNow, hc, Option.getD_some, ← hc]

private theorem completed_settled (t : TestFile) : Completed t.toDatum t.settled.toDatum := by
  obtain ⟨before, after, hfirst, hsecond⟩ := t.toDatum_settled
  refine ⟨before, after, _, _, hfirst, hsecond, by simp [complexitySummary, Datum.record], ?_⟩
  cases hc : t.complexity with
  | none => exact .inr rfl
  | some c => exact .inl (by simp [complexityNow, hc, Datum.ofOption])

private theorem toDatum_settled_eq_iff {t : TestFile} :
    t.settled.toDatum = t.toDatum ↔ t.complexity ≠ none := by
  constructor
  · intro h hnone
    have hunknown : t.toDatum.field? "complexity" = some .null := by
      rw [show t.toDatum.field? "complexity" = some (.ofOption complexitySummary t.complexity)
        from rfl, hnone]
      rfl
    have hknown : t.settled.toDatum.field? "complexity" =
      some (complexitySummary t.complexityNow) := rfl
    rw [h, hunknown] at hknown
    simp [complexitySummary, Datum.record] at hknown
  · intro h
    rw [settled_eq_self h]

private theorem encodable_settled {t : TestFile} (h : Json.Encodable t.toDatum) :
    Json.Encodable t.settled.toDatum := by
  obtain ⟨before, after, hfirst, hsecond⟩ := t.toDatum_settled
  rw [hfirst, Json.encodable_record_iff, List.forall_mem_append, List.forall_mem_cons] at h
  rw [hsecond, Json.encodable_record_iff, List.forall_mem_append, List.forall_mem_cons]
  refine ⟨h.1, ?_, h.2.2⟩
  have hshort := h.2.1
  cases hc : t.complexity with
  | none =>
    rw [complexityNow, hc, Option.getD_none, complexitySummary, Json.encodable_record_iff]
    simp [Complexity.ofCounts, Score.number, Datum.ofNumber, Json.Encodable]
  | some c =>
    rw [hc] at hshort
    rwa [complexityNow, hc]

end TestFile

namespace TestFileStore

open FileTree Work TestFile

theorem listName : FileName "all_files.json" := by decide

theorem candidateName : FileName "candidates.json" := by decide

variable {s : TestFileStore} {t : FileTree}

def candidates (ts : List TestFile) : List Datum :=
  (ts.filter needsRefactoring).map fun file => file.settled.toDatum

private theorem saveAll_eq (s : TestFileStore) (ts : List TestFile) :
    s.saveAll ts = do
      let r ← attempt do
        Json.store .stored (.list (ts.map toDatum)) s.listFile
        Json.store .stored (.list (candidates ts)) s.candidateFile
      return ((ts.map settled).foldl save s, r) := by
  have hcandidates : ((ts.map settled).filter needsRefactoring).map toDatum = candidates ts := by
    rw [List.filter_map, List.map_map]
    rfl
  rw [← hcandidates]
  rfl

theorem candidates_of_settled {ts : List TestFile} (h : ∀ file ∈ ts, file.settled = file) :
    candidates ts = (ts.filter needsRefactoring).map toDatum := by
  refine List.map_congr_left fun file hfile => ?_
  rw [h file (List.mem_of_mem_filter hfile)]

theorem leads_saveAll (ts : List TestFile) (now : Moment) (hdir : t.isDir s.folder = .ok true) :
    ∃ r t', Leads (s.saveAll ts) now t (.ok ((ts.map settled).foldl save s, r)) t' ∧
      (r = .ok () ↔ (∀ file ∈ ts, Json.Encodable file.toDatum) ∧ t.isDir s.listFile ≠ .ok true ∧
        t.isDir s.candidateFile ≠ .ok true) ∧
      (r = .ok () → SameDirectories t t' ∧ Json.Holds t' s.listFile (.list (ts.map toDatum)) ∧
        Json.Holds t' s.candidateFile (.list (candidates ts))) := by
  have hshort :
      Json.Encodable (.list (ts.map toDatum)) ↔ ∀ file ∈ ts, Json.Encodable file.toDatum := by
    rw [Json.encodable_list_iff, List.forall_mem_map]
  have hsome : (∀ file ∈ ts, Json.Encodable file.toDatum) → Json.Plain (.list (candidates ts)) := by
    intro h
    refine Json.plain_list (List.forall_mem_map.mpr fun file hfile => ?_)
    exact plain_of_encodable (encodable_settled (h file (List.mem_of_mem_filter hfile)))
  have hall : Json.Encodable (.list (ts.map toDatum)) → Json.Plain (.list (ts.map toDatum)) :=
    fun h => Json.plain_list
      (List.forall_mem_map.mpr fun file hfile => plain_of_encodable (hshort.mp h file hfile))
  obtain ⟨r₁, t₁, hfirst, hr₁, hheld₁⟩ := Json.leads_store_outcome now hall listName hdir
  rw [saveAll_eq]
  cases r₁ with
  | error f =>
    refine ⟨.error f, t₁, hfirst.bind_error.attempt.bind (Leads.pure _), ?_, ?_⟩
    · refine iff_of_false (by simp) fun h => ?_
      cases hr₁.mpr ⟨hshort.mpr h.1, h.2.1⟩
    · intro h
      cases h
  | ok u =>
    obtain ⟨hlist, hfree⟩ := hr₁.mp rfl
    obtain ⟨hwrote₁, hholds₁⟩ := hheld₁ rfl
    have hplain := hsome (hshort.mp hlist)
    have hsame := hwrote₁.sameDirectories
    have hdir₁ := isDir_of_keepsDirectories hsame.1 hdir
    obtain ⟨r₂, t₂, hsecond, hr₂, hheld₂⟩ :=
      Json.leads_store_outcome now (fun _ => hplain) candidateName hdir₁
    -- Writing the first list makes no directory, so the second has the room that it had before.
    have hroom : t₁.isDir s.candidateFile = .ok true ↔ t.isDir s.candidateFile = .ok true :=
      ⟨isDir_of_keepsDirectories hsame.2, isDir_of_keepsDirectories hsame.1⟩
    refine ⟨r₂, t₂, (hfirst.bind hsecond).attempt.bind (Leads.pure _), ?_, fun h => ?_⟩
    · rw [hr₂, ← hshort, and_iff_right (Json.encodable_of_plain hplain), and_iff_right hlist]
      exact (not_congr hroom).trans (and_iff_right hfree).symm
    · obtain ⟨hwrote₂, hholds₂⟩ := hheld₂ h
      exact ⟨hsame.trans hwrote₂.sameDirectories,
        hholds₁.wroteIn listName hwrote₂ (by decide), hholds₂⟩

theorem leads_saveAll_closed (ts : List TestFile) (now : Moment)
    (hdir : t.isDir s.folder ≠ .ok true) :
    ∃ f, Leads (s.saveAll ts) now t (.ok ((ts.map settled).foldl save s, .error f)) t := by
  have hone : OneName "all_files.json" := by constructor <;> decide
  obtain ⟨f, hfirst⟩ :=
    Json.leads_store_closed now .stored (.list (ts.map toDatum)) hone hdir
  rw [saveAll_eq]
  exact ⟨f, hfirst.bind_error.attempt.bind (Leads.pure _)⟩

/-- After test files have been saved, the second list has a record for each record of the first that
says that its file needs refactoring, in order, and the two differ at most in the complexity. They
are the same throughout exactly if the complexity of each such file was known before. -/
theorem saveAll_candidates (s : TestFileStore) (ts : List TestFile) (w : Workspace)
    (hdir : w.files.isDir s.folder = .ok true) :
    ∃ s' r w', s.saveAll ts w = (.ok (s', r), w') ∧
      (r = .ok () ↔ (∀ file ∈ ts, Json.Encodable file.toDatum) ∧
        w.files.isDir s.listFile ≠ .ok true ∧ w.files.isDir s.candidateFile ≠ .ok true) ∧
      (r = .ok () → Json.Holds w'.files s.listFile (.list (ts.map toDatum)) ∧
        Json.Holds w'.files s.candidateFile (.list (candidates ts))) ∧
      List.Forall₂ Completed ((ts.map toDatum).filter saysNeeded) (candidates ts) ∧
      (candidates ts = (ts.map toDatum).filter saysNeeded ↔
        ∀ file ∈ ts, file.needsRefactoring = true → file.complexity ≠ none) := by
  obtain ⟨r, t', hleads, hr, hheld⟩ := leads_saveAll ts w.now hdir
  obtain ⟨w', hrun, -, rfl⟩ := hleads w rfl rfl
  refine ⟨_, r, w', hrun, hr, fun hok => (hheld hok).2, ?_, ?_⟩
  · rw [filter_saysNeeded, candidates, List.forall₂_map_left_iff, List.forall₂_map_right_iff,
      List.forall₂_same]
    exact fun file _ => completed_settled file
  · rw [filter_saysNeeded, candidates, List.map_inj_left]
    simp only [toDatum_settled_eq_iff, List.mem_filter, and_imp]

def unmeasured : TestFile :=
  { facts :=
      { path := { parts := ["a.spec.ts"] }, relativePath := { parts := ["a.spec.ts"] }
        module := "", sizeBytes := 0, totalLines := 301, codeLines := 0, commentLines := 0
        blankLines := 0, lastModified := { micros := 0 } }
    analyzedAt := { micros := 0 } }

theorem saveAll_candidates_unmeasured :
    FileTree.isDir {} {} = .ok true ∧ (candidates [unmeasured]).length = 1 ∧
      candidates [unmeasured] ≠ [unmeasured.toDatum].filter saysNeeded ∧
      ∃ s' w', saveAll { folder := {} } [unmeasured] { now := { micros := 0 } } =
          (.ok (s', .ok ()), w') ∧
        Json.Holds w'.files { parts := ["all_files.json"] } (.list [unmeasured.toDatum]) ∧
        Json.Holds w'.files { parts := ["candidates.json"] } (.list (candidates [unmeasured])) := by
  obtain ⟨s', r, w', hrun, hr, hheld, -, hiff⟩ :=
    saveAll_candidates { folder := {} } [unmeasured] { now := { micros := 0 } } rfl
  have hshort : ∀ file ∈ [unmeasured], Json.Encodable file.toDatum := by
    rw [List.forall_mem_singleton, toDatum, Json.encodable_record_iff]
    simp only [unmeasured, List.forall_mem_cons, List.not_mem_nil, IsEmpty.forall_iff,
      implies_true, Json.Encodable, Json.EncodableAll, Datum.texts, Datum.nat, Datum.ofOption,
      List.map_nil]
    decide
  obtain rfl := hr.mpr ⟨hshort, by decide, by decide⟩
  refine ⟨rfl, by decide, fun heq => ?_, s', w', hrun, hheld rfl⟩
  exact hiff.mp heq unmeasured List.mem_cons_self (by decide) rfl

end TestFileStore
end SuiteTidy
