import SuiteTidy.Plan.Planning
import SuiteTidy.Proofs.Decimal.Nearest
import SuiteTidy.Proofs.Lists
import SuiteTidy.Proofs.Metrics.Points
import SuiteTidy.Proofs.Number.Order
import SuiteTidy.Proofs.Order.Stable

/-!
Making plans. A file that needs refactoring always has a reason for it and an action with
operations, so it always gets a plan that is ready and can be executed. Main statement: the plans
are those of the files that need them, the most urgent first, and their summary counts each once.
-/

set_option autoImplicit false
set_option relaxedAutoImplicit false

namespace SuiteTidy

/-- Counts below the limits for length, groups and tests earn too few points to need refactoring,
whatever the other counts are. -/
private theorem Counts.total_lt_fifty {c : Counts} (hlines : c.lines ≤ 300)
    (hcategories : c.categories ≤ 6) (htests : c.tests ≤ 20) : c.factors.total < 50 := by
  have hl : c.factors.lines ≤ 10 := pointsFor_mono (by decide) hlines
  have hc : c.factors.categories ≤ 8 := pointsFor_mono (by decide) hcategories
  have ht : c.factors.tests ≤ 6 := pointsFor_mono (by decide) htests
  have hm : c.factors.mocks ≤ 15 := pointsFor_le (by decide) c.mocks
  have hh : c.factors.hooks ≤ 10 := pointsFor_le (by decide) c.hooks
  rw [Factors.total]
  omega

namespace TestFile

/-- A file whose complexity is not known yet, or is that of its counts. -/
def Current (t : TestFile) : Prop :=
  t.complexity = none ∨ t.complexity = some (.ofCounts t.counts)

theorem Current.complexityNow_eq {t : TestFile} (h : t.Current) :
    t.complexityNow = .ofCounts t.counts := by
  rcases h with h | h <;> simp [complexityNow, h]

theorem Current.exceeds {t : TestFile} (h : t.Current) (hneeds : t.needsRefactoring) :
    t.facts.totalLines > 300 ∨ t.categories.length > 6 ∨ t.testCases.length > 20 := by
  by_contra hsmall
  push Not at hsmall
  obtain ⟨hlines, hcategories, htests⟩ := hsmall
  have hpoints : t.counts.factors.total < 50 :=
    Counts.total_lt_fifty (c := t.counts) hlines (by simpa [counts] using hcategories)
      (by simpa [counts] using htests)
  simp [needsRefactoring, h.complexityNow_eq, Complexity.needsRefactoring, Complexity.ofCounts,
    Score.reaches] at hneeds
  omega

private theorem intercalate_ne_empty {s a : String} {as : List String} (ha : a ≠ "") :
    s.intercalate (a :: as) ≠ "" := by
  rw [ne_eq, ← String.toList_eq_nil_iff, String.toList_intercalate]
  cases as <;> simp [List.intercalate, ha]

private theorem ne_empty_of_mem_reasons {t : TestFile} {r : String} (h : r ∈ t.reasons) :
    r ≠ "" := by
  simp only [reasons, List.mem_append] at h
  rcases h with ((h | h) | h) | h
  all_goals
    split_ifs at h
    · rw [List.mem_singleton.mp h]
      simp
    · cases h

private theorem Current.reasons_ne_nil {t : TestFile} (h : t.Current)
    (hneeds : t.needsRefactoring) : t.reasons ≠ [] := by
  rcases h.exceeds hneeds with hlines | hcategories | htests
  · simp [reasons, hlines]
  · simp [reasons, hcategories]
  · simp [reasons, htests]

theorem Current.refactoringReason_ne_empty {t : TestFile} (h : t.Current)
    (hneeds : t.needsRefactoring) : t.refactoringReason ≠ "" := by
  obtain ⟨r, rs, hrs⟩ := List.exists_cons_of_ne_nil (h.reasons_ne_nil hneeds)
  have hr : r ≠ "" := ne_empty_of_mem_reasons (t := t) (by simp [hrs])
  rw [refactoringReason, if_pos hneeds, hrs]
  exact intercalate_ne_empty hr

end TestFile

namespace Plan

private theorem markReady_eq {p : Plan} {os : List Operation} (hops : p.operations = os.map some)
    (hos : os ≠ []) :
    p.markReady = .ok { p with impact := some (impactOf os), status := .ready } := by
  have hsome : p.operations.isEmpty = false := by simpa [hops] using hos
  have hall : p.operationsAll = .ok os := by
    rw [operationsAll, hops]
    exact Lists.mapM_map_eq_ok fun _ _ => rfl
  rw [markReady, hsome, estimateImpact, hall]
  rfl

private theorem countOf_eq_countP (action : String) (os : List Operation) :
    countOf action os = os.countP (·.action = action) := by
  simp only [countOf, List.countP_eq_length_filter, beq_eq_decide]

end Plan

namespace Planning

/-! The action for a file and its operations. -/

theorem choose_cases {t : TestFile} (hneeds : t.needsRefactoring) :
    (choose t).1 = .splitByCategory ∧ 6 < t.categories.length ∨
      ((choose t).1 = .splitByConcern ∨ (choose t).1 = .extractShared) ∧
        t.categories.length ≤ 6 := by
  unfold choose
  split_ifs with hcategories htests hmocks
  · exact .inl ⟨rfl, hcategories⟩
  · exact .inr ⟨.inl rfl, by omega⟩
  · exact .inr ⟨.inr rfl, by omega⟩
  · exact .inr ⟨.inl rfl, by omega⟩

theorem length_operationsFor {t : TestFile} (hneeds : t.needsRefactoring) :
    6 < t.categories.length ∧ (operationsFor t (choose t).1).length = t.categories.length ∨
      t.categories.length ≤ 6 ∧ 2 ≤ (operationsFor t (choose t).1).length ∧
        (operationsFor t (choose t).1).length ≤ 3 := by
  rcases choose_cases hneeds with ⟨haction, hmany⟩ | ⟨haction | haction, hfew⟩
  · refine .inl ⟨hmany, ?_⟩
    simp [haction, operationsFor, categoryOperations]
  · refine .inr ⟨hfew, ?_⟩
    simp only [haction, operationsFor, concernOperations, List.length_map, List.length_range,
      partCount]
    omega
  · refine .inr ⟨hfew, ?_⟩
    simp [haction, operationsFor, sharedOperations]

theorem operationsFor_ne_nil {t : TestFile} (hneeds : t.needsRefactoring) :
    operationsFor t (choose t).1 ≠ [] := by
  rw [← List.length_pos_iff]
  rcases length_operationsFor hneeds with ⟨hmany, hlength⟩ | ⟨-, htwo, -⟩ <;> omega

theorem operation_of_mem {t : TestFile} {a : Action} {o : Operation} (h : o ∈ operationsFor t a) :
    (o.action = "create" ∨ o.action = "modify") ∧ ∃ path, o.target = some (.path path) := by
  cases a with
  | splitByCategory =>
    obtain ⟨c, -, rfl⟩ := List.mem_map.mp h
    exact ⟨.inl rfl, _, rfl⟩
  | splitByConcern =>
    obtain ⟨i, -, rfl⟩ := List.mem_map.mp h
    exact ⟨.inl rfl, _, rfl⟩
  | extractShared =>
    simp only [operationsFor, sharedOperations, List.mem_cons, List.not_mem_nil, or_false] at h
    rcases h with rfl | rfl
    · exact ⟨.inl rfl, _, rfl⟩
    · exact ⟨.inr rfl, _, rfl⟩
  | keepAsIs => cases h
  | consolidate => cases h

private theorem confidence_cases (t : TestFile) (a : Action) :
    confidence t a = 0.9 ∨ confidence t a = 0.85 ∨ confidence t a = 0.8 ∨ confidence t a = 0.5 := by
  unfold confidence
  split_ifs <;> simp

theorem confidence_bounds (t : TestFile) (a : Action) :
    Number.atMost (.real 0.5) (.real (confidence t a)) ∧
      Number.atMost (.real (confidence t a)) (.int 1) := by
  rcases confidence_cases t a with h | h | h | h <;> rw [h] <;> decide

/-! The plan for a file. -/

def planned (id : String) (now : Moment) (t : TestFile) : Plan :=
  let a := (choose t).1
  { id, source := some (.path t.facts.path), action := a, reason := t.refactoringReason,
    description := describe t a, operations := (operationsFor t a).map some,
    impact := some (Plan.impactOf (operationsFor t a)),
    confidence := .real (confidence t.settled a), priority := priority t.settled, status := .ready,
    createdAt := now }

theorem planFor_eq {t : TestFile} (hneeds : t.needsRefactoring) (id : String) (now : Moment) :
    planFor id now t = .ok (planned id now t) :=
  Plan.markReady_eq rfl (operationsFor_ne_nil hneeds)

/-- What a plan for a file is like: about this file, ready to be executed, with a reason and
operations, and with its operations counted by their actions. -/
structure ReadyFor (t : TestFile) (p : Plan) : Prop where
  source : p.source = some (.path t.facts.path)
  priority : p.priority = Planning.priority t.settled
  status : p.status = .ready
  executable : p.isExecutable = true
  action_ne_keepAsIs : p.action ≠ .keepAsIs
  action_ne_consolidate : p.action ≠ .consolidate
  reason : p.reason ≠ ""
  operations : p.operations ≠ []
  impact : ∃ os : List Operation, p.operations = os.map some ∧
    p.impact = some
      { created := os.countP (·.action = "create"), modified := os.countP (·.action = "modify"),
        deleted := os.countP (·.action = "delete"), total := os.length }

private theorem readyFor_planned {t : TestFile} (h : t.Current) (hneeds : t.needsRefactoring)
    (id : String) (now : Moment) : ReadyFor t (planned id now t) where
  source := rfl
  priority := rfl
  status := rfl
  executable := by
    simp [Plan.isExecutable, planned, operationsFor_ne_nil hneeds, (confidence_bounds _ _).1]
  action_ne_keepAsIs := by
    rcases choose_cases hneeds with ⟨haction, -⟩ | ⟨haction | haction, -⟩ <;>
      simp [planned, haction]
  action_ne_consolidate := by
    rcases choose_cases hneeds with ⟨haction, -⟩ | ⟨haction | haction, -⟩ <;>
      simp [planned, haction]
  reason := h.refactoringReason_ne_empty hneeds
  operations := by simpa [planned] using operationsFor_ne_nil hneeds
  impact := ⟨_, rfl, by simp [planned, Plan.impactOf, Plan.countOf_eq_countP]⟩

/-! Plans for many files. -/

def plannedAt (now : Moment) (x : TestFile × Nat) : Plan := planned (planId x.2) now x.1

def numbered (issued : Nat) (ts : List TestFile) : List (TestFile × Nat) :=
  (ts.filter (·.needsRefactoring)).zipIdx (issued + 1)

private theorem plansFrom_eq (now : Moment) (issued : Nat) (ts : List TestFile) :
    plansFrom now issued ts = .ok ((numbered issued ts).map (plannedAt now)) := by
  induction ts generalizing issued with
  | nil => rfl
  | cons t ts ih =>
    rw [plansFrom]
    cases hneeds : t.needsRefactoring with
    | true =>
      simp only [if_true, planFor_eq hneeds, ih, numbered, List.filter_cons, hneeds,
        List.zipIdx_cons]
      rfl
    | false => simp [hneeds, ih, numbered]

section Sorting

variable {α : Type} (key : α → Int)

def notBefore (a b : α) : Bool := key b ≤ key a

private theorem notBefore_trans (a b c : α) (hab : notBefore key a b = true)
    (hbc : notBefore key b c = true) : notBefore key a c = true := by
  simp only [notBefore, decide_eq_true_eq] at *
  omega

private theorem notBefore_total (a b : α) : (notBefore key a b || notBefore key b a) = true := by
  simp only [notBefore, Bool.or_eq_true, decide_eq_true_eq]
  omega

private theorem pairwise_sorted (l : List α) :
    (l.mergeSort (notBefore key)).Pairwise fun a b => key b ≤ key a := by
  have hsorted := List.pairwise_mergeSort (notBefore_trans key) (notBefore_total key) l
  simpa [notBefore] using hsorted

private theorem filter_sorted (l : List α) (k : Int) :
    (l.mergeSort (notBefore key)).filter (key · = k) = l.filter (key · = k) := by
  refine Order.filter_mergeSort_of_tied (notBefore_trans key) (notBefore_total key) ?_ l
  intro a b ha hb
  simp only [decide_eq_true_eq] at ha hb
  simp [notBefore, ha, hb]

end Sorting

/-! The summary of plans. -/

private theorem length_eq_counts {ps : List Plan} (h : ∀ p ∈ ps, p.action ≠ .consolidate) :
    ps.countP (·.action == .splitByCategory) + ps.countP (·.action == .splitByConcern) +
      ps.countP (·.action == .extractShared) + ps.countP (·.action == .keepAsIs) = ps.length := by
  induction ps with
  | nil => rfl
  | cons p ps ih =>
    rw [List.forall_mem_cons] at h
    have hps := ih h.2
    cases haction : p.action with
    | consolidate => exact absurd haction h.1
    | _ =>
      simp only [List.countP_cons, haction, List.length_cons, ← hps]
      simp
      omega

private theorem foldlM_plus_real (x : Float) {cs : List Number}
    (h : ∀ c ∈ cs, ∃ y, c = .real y) : ∃ y, cs.foldlM Number.plus (.real x) = .ok (.real y) := by
  induction cs generalizing x with
  | nil => exact ⟨x, rfl⟩
  | cons c cs ih =>
    rw [List.forall_mem_cons] at h
    obtain ⟨y, rfl⟩ := h.1
    exact ih (x + y) h.2

private theorem sum_reals {cs : List Number} (h : ∀ c ∈ cs, ∃ y, c = .real y) (hcs : cs ≠ []) :
    ∃ y, Number.sum cs = .ok (.real y) := by
  obtain ⟨c, cs, rfl⟩ := List.exists_cons_of_ne_nil hcs
  rw [List.forall_mem_cons] at h
  obtain ⟨y, rfl⟩ := h.1
  have hzero : Decimal.ofInt? 0 = some (Float.ofBits 0) := rfl
  have hfirst : Number.plus (.int 0) (.real y) = .ok (.real (Float.ofBits 0 + y)) := by
    simp [Number.plus, Number.combine, Number.toReal, hzero, bind, Except.bind, pure, Except.pure]
  rw [Number.sum, List.foldlM_cons, hfirst]
  exact foldlM_plus_real _ h.2

private theorem dividedBy_natCast (x : Float) {n : Nat} (hn : n ≠ 0) (hbound : n < 2 ^ 1023) :
    ∃ y, (Number.real x).dividedBy (.int n) = .ok (.real y) := by
  obtain ⟨d, hd, hne⟩ := Decimal.ofInt?_natCast hn hbound
  refine ⟨x / d, ?_⟩
  simp [Number.dividedBy, Number.toReal, hd, hne, bind, Except.bind, pure, Except.pure]

def averageOf (ps : List Plan) : Except Fault Number :=
  if ps.isEmpty then .ok (.int 0)
  else (Number.sum (ps.map Plan.confidence) >>= (·.dividedBy (.int ps.length))).mapError .number

private theorem summarize_eq (now : Moment) (ps : List Plan) :
    summarize now ps = (averageOf ps).map fun average =>
      { total := ps.length, splitByCategory := ps.countP (·.action == .splitByCategory),
        splitByConcern := ps.countP (·.action == .splitByConcern),
        extractShared := ps.countP (·.action == .extractShared),
        keepAsIs := ps.countP (·.action == .keepAsIs), averageConfidence := average,
        takenAt := now } := by
  unfold summarize averageOf
  split <;> rfl

private theorem averageOf_isOk {ps : List Plan} (hreal : ∀ p ∈ ps, ∃ x, p.confidence = .real x)
    (hbound : ps.length < 2 ^ 1023) : ∃ average, averageOf ps = .ok average := by
  by_cases hps : ps = []
  · exact ⟨.int 0, by simp [averageOf, hps]⟩
  · have hconfidences : ∀ c ∈ ps.map Plan.confidence, ∃ x, c = .real x := by simpa using hreal
    obtain ⟨total, htotal⟩ := sum_reals hconfidences (by simpa using hps)
    obtain ⟨average, haverage⟩ := dividedBy_natCast total (by simpa using hps) hbound
    refine ⟨.real average, ?_⟩
    simp [averageOf, hps, htotal, haverage, bind, Except.bind, Except.mapError]

private theorem summarize_counts {ps : List Plan} (h : ∀ p ∈ ps, p.action ≠ .consolidate)
    {now : Moment} {s : Summary} (hs : summarize now ps = .ok s) :
    s.total = ps.length ∧
      s.splitByCategory + s.splitByConcern + s.extractShared + s.keepAsIs = s.total := by
  rw [summarize_eq] at hs
  cases haverage : averageOf ps with
  | error f => simp [haverage, Except.map] at hs
  | ok average =>
    obtain rfl := Except.ok.inj (haverage ▸ hs)
    exact ⟨rfl, length_eq_counts h⟩

/-! All plans together. -/

def byPriority (issued : Nat) (ts : List TestFile) : List (TestFile × Nat) :=
  (numbered issued ts).mergeSort (notBefore fun x => priority x.1.settled)

private theorem mem_of_mem_byPriority {issued : Nat} {ts : List TestFile} {x : TestFile × Nat}
    (h : x ∈ byPriority issued ts) : x.1 ∈ ts ∧ x.1.needsRefactoring := by
  have hmem : x ∈ numbered issued ts := (List.mergeSort_perm _ _).mem_iff.mp h
  exact List.mem_filter.mp (List.fst_mem_of_mem_zipIdx hmem)

private theorem filter_byPriority (issued : Nat) (ts : List TestFile) (k : Int) :
    ((byPriority issued ts).map (·.1)).filter (fun t => priority t.settled = k) =
      (ts.filter (·.needsRefactoring)).filter (fun t => priority t.settled = k) := by
  have hsorted := filter_sorted (fun x => priority x.1.settled) (numbered issued ts) k
  calc ((byPriority issued ts).map (·.1)).filter (fun t => priority t.settled = k)
      = ((byPriority issued ts).filter (fun x => priority x.1.settled = k)).map (·.1) :=
        List.filter_map
    _ = ((numbered issued ts).filter (fun x => priority x.1.settled = k)).map (·.1) :=
        congrArg (List.map (·.1)) hsorted
    _ = ((numbered issued ts).map (·.1)).filter (fun t => priority t.settled = k) := by
        rw [List.filter_map]
        rfl
    _ = (ts.filter (·.needsRefactoring)).filter (fun t => priority t.settled = k) := by
        rw [numbered, List.zipIdx_map_fst]

private theorem byUrgency_numbered (now : Moment) (issued : Nat) (ts : List TestFile) :
    byUrgency ((numbered issued ts).map (plannedAt now)) =
      (byPriority issued ts).map (plannedAt now) := by
  refine (List.map_mergeSort ?_).symm
  intro x _ y _
  rfl

private theorem generate_eq (ts : List TestFile) (w : Workspace) :
    generate ts w = (.ok ((byPriority w.issued ts).map (plannedAt w.now)),
      { w with issued := w.issued + (byPriority w.issued ts).length }) := by
  have hlength : (byPriority w.issued ts).length =
      ((numbered w.issued ts).map (plannedAt w.now)).length := by
    simp [byPriority]
  rw [← byUrgency_numbered, hlength]
  have hplans := plansFrom_eq w.now w.issued ts
  generalize (numbered w.issued ts).map (plannedAt w.now) = plans at hplans ⊢
  change (Work.lift (fun f => f) (plansFrom w.now w.issued ts) >>= fun ps => do
    set { w with issued := w.issued + ps.length }
    return byUrgency ps : Work (List Plan)) w = _
  rw [hplans]
  rfl

/-- Plans are made for exactly the files that need refactoring, in the order of their urgency, and
files of the same urgency keep their order. Each plan is ready for its file. -/
theorem generate_readyFor {ts : List TestFile} (hts : ∀ t ∈ ts, t.Current) (w : Workspace) :
    ∃ files ps, generate ts w = (.ok ps, { w with issued := w.issued + ps.length }) ∧
      files.Pairwise (fun t u => priority u.settled ≤ priority t.settled) ∧
      (∀ k : Int, files.filter (fun t => priority t.settled = k) =
        (ts.filter (·.needsRefactoring)).filter (fun t => priority t.settled = k)) ∧
      List.Forall₂ (fun t p => ReadyFor t p ∧ ∃ n, planFor (planId n) w.now t = .ok p) files ps ∧
      ∀ now, (ps.length < 2 ^ 1023 → ∃ s, summarize now ps = .ok s) ∧
        ∀ s, summarize now ps = .ok s → s.total = ps.length ∧
          s.splitByCategory + s.splitByConcern + s.extractShared + s.keepAsIs = s.total := by
  have hready : ∀ x ∈ byPriority w.issued ts, ReadyFor x.1 (plannedAt w.now x) := by
    intro x hx
    obtain ⟨hmem, hneeds⟩ := mem_of_mem_byPriority hx
    exact readyFor_planned (hts x.1 hmem) hneeds _ _
  refine ⟨(byPriority w.issued ts).map (·.1), (byPriority w.issued ts).map (plannedAt w.now),
    ?_, ?_, filter_byPriority w.issued ts, ?_, fun now => ⟨fun hbound => ?_, fun s hs => ?_⟩⟩
  · rw [generate_eq, List.length_map]
  · rw [List.pairwise_map]
    exact pairwise_sorted _ _
  · rw [List.forall₂_map_left_iff, List.forall₂_map_right_iff, List.forall₂_same]
    intro x hx
    exact ⟨hready x hx, x.2, planFor_eq (mem_of_mem_byPriority hx).2 _ _⟩
  · have hreal : ∀ p ∈ (byPriority w.issued ts).map (plannedAt w.now),
        ∃ c, p.confidence = .real c := by
      intro p hp
      obtain ⟨x, -, rfl⟩ := List.mem_map.mp hp
      exact ⟨_, rfl⟩
    obtain ⟨average, haverage⟩ := averageOf_isOk hreal hbound
    rw [summarize_eq, haverage]
    exact ⟨_, rfl⟩
  · refine summarize_counts ?_ hs
    intro p hp
    obtain ⟨x, hx, rfl⟩ := List.mem_map.mp hp
    exact (hready x hx).action_ne_consolidate

def grouped (groups : Nat) : TestFile :=
  { facts := { path := { parts := ["a.spec.ts"] }, relativePath := { parts := ["a.spec.ts"] },
               module := "a", sizeBytes := 100, totalLines := 10, codeLines := 8, commentLines := 1,
               blankLines := 1, lastModified := { micros := 0 } }
    categories := (List.range groups).map fun i => "cat" ++ toString (i + 1)
    analyzedAt := { micros := 0 } }

theorem current_grouped (groups : Nat) : (grouped groups).Current := .inl rfl

theorem generate_readyFor_grouped :
    (∀ t ∈ [grouped 0, grouped 7], t.Current) ∧
      ∃ files ps w, generate [grouped 0, grouped 7] { now := { micros := 0 } } = (.ok ps, w) ∧
        files ≠ [] ∧ List.Forall₂ ReadyFor files ps := by
  have hcurrent : ∀ t ∈ [grouped 0, grouped 7], t.Current := by simp [current_grouped]
  obtain ⟨files, ps, hrun, -, hfiles, hready, -⟩ :=
    generate_readyFor hcurrent { now := { micros := 0 } }
  have hone : (([grouped 0, grouped 7].filter (·.needsRefactoring)).filter
      (fun t => priority t.settled = 3)).length = 1 := by decide
  refine ⟨hcurrent, files, ps, _, hrun, ?_, hready.imp fun _ _ h => h.1⟩
  rintro rfl
  rw [← hfiles] at hone
  simp at hone

end Planning
end SuiteTidy
