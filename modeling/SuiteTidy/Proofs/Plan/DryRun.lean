import SuiteTidy.Proofs.Plan.Effects
import SuiteTidy.Proofs.Plan.Frame
import SuiteTidy.Proofs.Plan.Planning

/-!
A dry run against the execution that it stands for. The dry run counts every plan as successful and
every operation as a file, while an execution passes over plans that are not executable, gives up
at a missing operation, and makes a file only for a creation. Main statement: where every file can
be written, the two report the same exactly if all plans are executable and all operations are
creations.
-/

set_option autoImplicit false
set_option relaxedAutoImplicit false

namespace SuiteTidy.Plan

def isCreation : Option Operation → Bool
  | some o => o.action == "create"
  | none => false

def creations (p : Plan) : Nat := p.operations.countP isCreation

/-- Whether a plan is carried out to its end: it is executable and none of its operations is
missing. -/
def runsThrough (p : Plan) : Bool := p.isExecutable && !p.operations.contains none

private theorem creations_le (p : Plan) : p.creations ≤ p.operations.length := List.countP_le_length

theorem creations_eq_iff {p : Plan} :
    p.creations = p.operations.length ↔
      ∀ o ∈ p.operations, ∃ x, o = some x ∧ x.action = "create" := by
  rw [creations, List.countP_eq_length]
  refine forall₂_congr fun o _ => ?_
  cases o with
  | none => simp [isCreation]
  | some x => simp [isCreation]

def total (count : Plan → Nat) (ps : List Plan) : Nat := (ps.map count).foldr (· + ·) 0

private theorem total_le {count limit : Plan → Nat} (h : ∀ p, count p ≤ limit p) (ps : List Plan) :
    total count ps ≤ total limit ps := by
  induction ps with
  | nil => exact Nat.le_refl 0
  | cons p ps ih => exact Nat.add_le_add (h p) ih

private theorem total_eq_iff {count limit : Plan → Nat} (h : ∀ p, count p ≤ limit p)
    (ps : List Plan) : total count ps = total limit ps ↔ ∀ p ∈ ps, count p = limit p := by
  induction ps with
  | nil => simp [total]
  | cons p ps ih =>
    have hfirst := h p
    have hothers := total_le h ps
    rw [List.forall_mem_cons, ← ih]
    show count p + total count ps = limit p + total limit ps ↔ _
    omega

end SuiteTidy.Plan

namespace SuiteTidy.Execution

open SuiteTidy.Work SuiteTidy.Plan

/-- Every file that an executable plan comes to create can be written when it is its turn. -/
def CanCreate (hasGenerator : Bool) (ps : List Plan) (w : Workspace) : Prop :=
  ∀ before p after, ps = before ++ p :: after → p.Executable →
    p.EachOperation fun done o => none ∉ done → o.action = "create" → hasGenerator = true ∧
      (SafeFile.write o.target (contentFor w.now p o) false
        (reached hasGenerator before p done w)).1 = .ok true

section Counts

variable {hasGenerator : Bool} {now : Moment}

private theorem performOn_created {p : Plan} {o : Operation} {t : FileTree}
    (h : o.action = "create" → hasGenerator = true ∧
      (SafeFile.written o.target (contentFor now p o) t).1 = true) :
    (performOn hasGenerator now p o t).1.2 = isCreation (some o) := by
  by_cases hcreate : o.action = "create"
  · obtain ⟨rfl, hwritten⟩ := h hcreate
    simp [performOn, createFileOn, hcreate, hwritten, isCreation]
  · simp [performOn, hcreate, isCreation]

private theorem performAllOn_created {p : Plan} {n : Nat} {os : List (Option Operation)}
    {t : FileTree} (hcomplete : none ∉ os)
    (h : ∀ done o rest, os = done ++ some o :: rest → o.action = "create" → hasGenerator = true ∧
      (SafeFile.written o.target (contentFor now p o)
        (performAllOn hasGenerator now p n done t).2).1 = true) :
    (performAllOn hasGenerator now p n os t).1.2 = .ok (n + os.countP isCreation) := by
  induction os generalizing p n t with
  | nil => rfl
  | cons x os ih =>
    cases x with
    | none => simp at hcomplete
    | some o =>
      have hfirst : (performOn hasGenerator now p o t).1.2 = isCreation (some o) :=
        performOn_created (h [] o os rfl)
      obtain ⟨created, hplan⟩ := performOn_plan hasGenerator now p o t
      rw [performAllOn, hfirst]
      rw [List.mem_cons, not_or] at hcomplete
      rw [ih hcomplete.2, List.countP_cons]
      · split_ifs <;> simp [Nat.add_comm, Nat.add_left_comm]
      · intro done o' rest hos hcreate
        have hlater := h (some o :: done) o' rest (by rw [hos]; rfl) hcreate
        rw [performAllOn, hfirst] at hlater
        -- The text of a file does not depend on the files that its plan has created so far.
        have htext : contentFor now (performOn hasGenerator now p o t).1.1 o' =
            contentFor now p o' := by
          rw [hplan]
          rfl
        rw [htext]
        exact hlater

private theorem Outcome.created_of_not_completed {o : Outcome} (h : o.isCompleted = false) :
    o.created = 0 := by
  cases o with
  | completed n => simp [isCompleted] at h
  | skipped => rfl
  | failed => rfl

private theorem executePlanOn_created {p : Plan} {t : FileTree}
    (h : p.Executable → p.EachOperation fun done o => none ∉ done → o.action = "create" →
      hasGenerator = true ∧ (SafeFile.written o.target (contentFor now p o)
        (performAllOn hasGenerator now (p.markExecuting now) 0 done t).2).1 = true) :
    (executePlanOn hasGenerator now p t).1.2.created =
      if p.runsThrough then p.creations else 0 := by
  cases hthrough : p.runsThrough with
  | false =>
    refine Outcome.created_of_not_completed ?_
    rw [Settled.isCompleted_eq p _ (settled_executePlanOn hasGenerator now p t)]
    exact hthrough
  | true =>
    simp only [runsThrough, Bool.and_eq_true, Bool.not_eq_true', List.contains_eq_mem,
      decide_eq_false_iff_not] at hthrough
    obtain ⟨hexec, hcomplete⟩ := hthrough
    have hcount : (performAllOn hasGenerator now (p.markExecuting now) 0 p.operations t).1.2 =
        .ok (0 + p.creations) := by
      refine performAllOn_created hcomplete fun done o rest hos hcreate => ?_
      refine h (isExecutable_iff.mp hexec) done o rest hos (fun hmem => hcomplete ?_) hcreate
      simp [hos, hmem]
    rw [executePlanOn, if_pos hexec, if_pos rfl]
    simp [hcount, ended, Outcome.created]

private theorem executePlansOn_created {ps : List Plan} {t : FileTree}
    (h : ∀ before p after, ps = before ++ p :: after → p.Executable →
      p.EachOperation fun done o => none ∉ done → o.action = "create" → hasGenerator = true ∧
        (SafeFile.written o.target (contentFor now p o)
          (performAllOn hasGenerator now (p.markExecuting now) 0 done
            (executePlansOn hasGenerator now before t).2).2).1 = true) :
    (((executePlansOn hasGenerator now ps t).1.map (·.2)).map Outcome.created).foldr (· + ·) 0 =
      total creations (ps.filter runsThrough) := by
  induction ps generalizing t with
  | nil => rfl
  | cons p ps ih =>
    have hfirst := executePlanOn_created (h [] p ps rfl)
    have hothers := ih (t := (executePlanOn hasGenerator now p t).2) fun before q after hps =>
      h (p :: before) q after (by rw [hps]; rfl)
    simp only [executePlansOn, List.map_cons, List.foldr_cons, hothers]
    rw [show (executePlanOn hasGenerator now p t).1.2.created = _ from hfirst, List.filter_cons]
    split_ifs
    · rfl
    · exact Nat.zero_add _

end Counts

def reported (now : Moment) (ps : List Plan) : Tally :=
  { executed := ps.length, successful := ps.countP runsThrough,
    failed := ps.countP fun p => p.isExecutable && p.operations.contains none,
    filesCreated := total creations (ps.filter runsThrough), finishedAt := now }

def simulated (now : Moment) (ps : List Plan) : Tally :=
  { executed := ps.length, successful := ps.length, filesCreated := total (·.operations.length) ps,
    finishedAt := now }

private theorem tally_of_canCreate {hasGenerator : Bool} {ps : List Plan} {w : Workspace}
    (h : CanCreate hasGenerator ps w) :
    Tally.of w.now ((executePlansOn hasGenerator w.now ps w.files).1.map (·.2)) =
      reported w.now ps := by
  have hsettled := settled_executePlansOn hasGenerator w.now ps w.files
  have hsuccessful := countP_outcomes_before Outcome.isCompleted Settled.isCompleted_eq hsettled
  have hfailed := countP_outcomes_before (· == .failed) Settled.isFailed_eq hsettled
  have hcreated : (((executePlansOn hasGenerator w.now ps w.files).1.map (·.2)).map
      Outcome.created).foldr (· + ·) 0 = total creations (ps.filter runsThrough) := by
    refine executePlansOn_created fun before p after hps hexec done o rest hos hdone hcreate => ?_
    obtain ⟨hgenerator, hwrite⟩ := h before p after hps hexec done o rest hos hdone hcreate
    rw [write_eq_true_iff, reached_files] at hwrite
    exact ⟨hgenerator, hwrite⟩
  rw [Tally.of, hsuccessful, hfailed, hcreated, List.length_map, ← hsettled.length_eq]
  rfl

theorem run_live {r : Request} {w : Workspace} (h : CanCreate r.hasGenerator r.plans w) :
    ∃ qs w', run { r with dryRun := false } w = (.ok (qs, reported w.now r.plans), w') := by
  obtain ⟨words, hrun⟩ := acts_live (r := { r with dryRun := false }) rfl w
  simp only at hrun
  rw [tally_of_canCreate h] at hrun
  exact ⟨_, _, hrun⟩

private theorem run_dry_eq_ok_iff {r : Request} {w : Workspace} {dry : Tally} :
    (run { r with dryRun := true } w).1 = .ok (r.plans, dry) ↔
      (r.verbose = true → ∀ p ∈ r.plans, ∃ file, p.source = some (.path file)) ∧
        dry = simulated w.now r.plans := by
  obtain ⟨words, hrun⟩ := acts_dry (r := { r with dryRun := true }) rfl w
  rw [hrun, ← previewed_eq_ok_iff]
  cases r.verbose with
  | false => simp [Except.map, simulated, total, eq_comm]
  | true =>
    cases previewed r.plans with
    | ok u => simp [Except.map, simulated, total, eq_comm]
    | error f => simp [Except.map]

/-- Every plan is executable, and every operation of it creates a file. -/
def OnlyCreates (ps : List Plan) : Prop :=
  ∀ p ∈ ps, p.Executable ∧ ∀ o ∈ p.operations, ∃ x, o = some x ∧ x.action = "create"

private theorem counts_eq_iff (now : Moment) (ps : List Plan) :
    ((simulated now ps).successful = (reported now ps).successful ∧
      (simulated now ps).failed = (reported now ps).failed ∧
      (simulated now ps).filesCreated = (reported now ps).filesCreated) ↔ OnlyCreates ps := by
  simp only [simulated, reported]
  constructor
  · rintro ⟨hsuccessful, -, hcreated⟩ p hp
    have hall : ∀ q ∈ ps, q.runsThrough = true := List.countP_eq_length.mp hsuccessful.symm
    rw [List.filter_eq_self.mpr hall] at hcreated
    have hcreations := (total_eq_iff creations_le ps).mp hcreated.symm p hp
    have hexec : p.isExecutable = true := (Bool.and_eq_true_iff.mp (hall p hp)).1
    exact ⟨isExecutable_iff.mp hexec, creations_eq_iff.mp hcreations⟩
  · intro honly
    have hcomplete : ∀ p ∈ ps, none ∉ p.operations := by
      intro p hp hmissing
      obtain ⟨x, hx, -⟩ := (honly p hp).2 none hmissing
      simp at hx
    have hall : ∀ p ∈ ps, p.runsThrough = true := by
      intro p hp
      simp [runsThrough, isExecutable_iff.mpr (honly p hp).1, hcomplete p hp]
    refine ⟨(List.countP_eq_length.mpr hall).symm, ?_, ?_⟩
    · symm
      rw [List.countP_eq_zero]
      intro p hp
      simp [hcomplete p hp]
    · rw [List.filter_eq_self.mpr hall]
      symm
      exact (total_eq_iff creations_le ps).mpr fun p hp => creations_eq_iff.mpr (honly p hp).2

/-- Where every file can be written, an execution counts the plans that it carries out to their end
and the files that those create. A dry run reports the same exactly if every plan is executable and
does nothing but create files; if it tells about the plans, their sources must have names too, or
it reports nothing. -/
theorem run_dry_eq_live_iff {r : Request} {w : Workspace}
    (h : CanCreate r.hasGenerator r.plans w) :
    ∃ qs live w', run { r with dryRun := false } w = (.ok (qs, live), w') ∧
      live.successful = r.plans.countP runsThrough ∧
      live.failed = r.plans.countP (fun p => p.isExecutable && p.operations.contains none) ∧
      live.filesCreated = total creations (r.plans.filter runsThrough) ∧
      ((∃ dry, (run { r with dryRun := true } w).1 = .ok (r.plans, dry) ∧
          dry.successful = live.successful ∧ dry.failed = live.failed ∧
          dry.filesCreated = live.filesCreated) ↔
        (r.verbose = true → ∀ p ∈ r.plans, ∃ file, p.source = some (.path file)) ∧
          OnlyCreates r.plans) := by
  obtain ⟨qs, w', hlive⟩ := run_live h
  refine ⟨qs, _, w', hlive, rfl, rfl, rfl, ?_⟩
  simp only [run_dry_eq_ok_iff, ← counts_eq_iff w.now]
  constructor
  · rintro ⟨dry, ⟨hnamed, rfl⟩, hcounts⟩
    exact ⟨hnamed, hcounts⟩
  · rintro ⟨hnamed, hcounts⟩
    exact ⟨_, ⟨hnamed, rfl⟩, hcounts⟩

def mockedFile : TestFile :=
  { Planning.grouped 0 with
    facts := { (Planning.grouped 0).facts with totalLines := 301 }
    mockData := List.replicate 6 .null }

def sharedPlan : Plan :=
  { id := "plan_1", source := some (.path { parts := ["a.spec.ts"] }), action := .extractShared,
    reason := mockedFile.refactoringReason,
    description := Planning.describe mockedFile .extractShared,
    operations := (Planning.sharedOperations mockedFile).map some,
    impact := some { created := 1, modified := 1, deleted := 0, total := 2 },
    confidence := .real 0.5, priority := 3, status := .ready, createdAt := { micros := 0 } }

/-- For a plan that planning makes itself, the dry run counts two files where the execution makes
one. -/
theorem run_dry_eq_live_iff_shared :
    Planning.planFor "plan_1" { micros := 0 } mockedFile = .ok sharedPlan ∧
      CanCreate true [sharedPlan] oneFile ∧
      ∃ qs live w' dry, run { plans := [sharedPlan] } oneFile = (.ok (qs, live), w') ∧
        (run { plans := [sharedPlan], dryRun := true } oneFile).1 = .ok ([sharedPlan], dry) ∧
        live.filesCreated = 1 ∧ dry.filesCreated = 2 := by
  have hcan : CanCreate true [sharedPlan] oneFile := by
    intro before p after hps _ done o rest hos _ hcreate
    obtain ⟨rfl, rfl, -⟩ : before = [] ∧ p = sharedPlan ∧ after = [] := by
      simpa [List.cons_eq_append_iff] using hps
    refine ⟨rfl, ?_⟩
    simp only [sharedPlan, Planning.sharedOperations, List.map_cons, List.map_nil,
      List.cons_eq_append_iff, List.cons.injEq, Option.some.injEq] at hos
    -- The first operation is a creation, the second is not.
    rcases hos with ⟨rfl, rfl, -⟩ | ⟨_, -, ⟨-, rfl, -⟩ | ⟨_, -, hrest⟩⟩
    · rw [write_eq_true_iff]
      decide +kernel
    · simp at hcreate
    · simp at hrest
  have hdry := (run_dry_eq_ok_iff (r := { plans := [sharedPlan] }) (w := oneFile)).mpr
    ⟨by simp, rfl⟩
  obtain ⟨qs, live, w', hlive, -, -, hcreated, -⟩ :=
    run_dry_eq_live_iff (r := { plans := [sharedPlan] }) hcan
  have hone : total creations ([sharedPlan].filter runsThrough) = 1 := by decide +kernel
  exact ⟨rfl, hcan, qs, live, w', _, hlive, hdry, hcreated.trans hone, rfl⟩

end SuiteTidy.Execution
