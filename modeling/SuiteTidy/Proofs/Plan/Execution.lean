import SuiteTidy.Plan.Execution
import SuiteTidy.Proofs.Files.Safe
import Mathlib.Data.List.Forall2

/-!
Carrying out plans, as functions on the files. Every plan that is executable ends completed or
failed, and it fails exactly if one of its operations is missing. All other plans stay as they are.
So a second execution finds nothing to do.
-/

set_option autoImplicit false
set_option relaxedAutoImplicit false

namespace SuiteTidy.Plan

def Executable (p : Plan) : Prop :=
  p.status = .ready ∧ p.operations ≠ [] ∧ Number.atMost (.real 0.5) p.confidence = true

theorem isExecutable_iff {p : Plan} : p.isExecutable = true ↔ p.Executable := by
  simp [isExecutable, Executable, and_assoc]

end SuiteTidy.Plan

namespace SuiteTidy.Execution

open SuiteTidy.Work

def createFileOn (hasGenerator : Bool) (now : Moment) (p : Plan) (o : Operation) (t : FileTree) :
    (Plan × Bool) × FileTree :=
  if hasGenerator then
    let written := SafeFile.written o.target (contentFor now p o) t
    ((if written.1 then noteCreated p o else p, written.1), written.2)
  else ((p, false), t)

def performOn (hasGenerator : Bool) (now : Moment) (p : Plan) (o : Operation) (t : FileTree) :
    (Plan × Bool) × FileTree :=
  if o.action = "create" then createFileOn hasGenerator now p o t else ((p, false), t)

def performAllOn (hasGenerator : Bool) (now : Moment) :
    Plan → Nat → List (Option Operation) → FileTree → (Plan × Except Fault Nat) × FileTree
  | p, created, [], t => ((p, .ok created), t)
  | p, _, none :: _, t => ((p, .error (.datum (.missingAttribute "NoneType" "action"))), t)
  | p, created, some o :: os, t =>
    let done := performOn hasGenerator now p o t
    performAllOn hasGenerator now done.1.1 (if done.1.2 then created + 1 else created) os done.2

def ended (p : Plan) : Except Fault Nat → Plan × Outcome
  | .ok created =>
    (p.markCompleted (p.filesCreated.getD []) p.filesModified p.filesDeleted, .completed created)
  | .error f => (p.markFailed f.message, .failed)

def executePlanOn (hasGenerator : Bool) (now : Moment) (p : Plan) (t : FileTree) :
    (Plan × Outcome) × FileTree :=
  if p.isExecutable then
    let done := performAllOn hasGenerator now (p.markExecuting now) 0 p.operations t
    (ended done.1.1 done.1.2, done.2)
  else ((p, .skipped), t)

def executePlansOn (hasGenerator : Bool) (now : Moment) :
    List Plan → FileTree → List (Plan × Outcome) × FileTree
  | [], t => ([], t)
  | p :: ps, t =>
    let first := executePlanOn hasGenerator now p t
    let others := executePlansOn hasGenerator now ps first.2
    (first.1 :: others.1, others.2)

/-! The steps of an execution act as these functions. -/

private theorem acts_tell_bind {α : Type} {k : Unit → Work α} {f : Effect α} (words : String)
    (hk : Acts (k ()) f) : Acts (tell words >>= k) f :=
  Acts.printLine_bind _ hk

private theorem acts_generate (hasGenerator : Bool) (p : Plan) (o : Operation) :
    Acts (generate hasGenerator p o) fun now t =>
      (if hasGenerator then .ok (contentFor now p o)
        else .error (.datum (.missingAttribute "NoneType" "generate_file_header")), t) := by
  unfold generate
  refine acts_tell_bind _ ?_
  cases hasGenerator with
  | false => exact Acts.throw _
  | true => exact Acts.now.bind fun now => Acts.pure (contentFor now p o)

private theorem acts_createFile (hasGenerator : Bool) (p : Plan) (o : Operation) :
    Acts (createFile hasGenerator p o) fun now t =>
      (.ok (createFileOn hasGenerator now p o t).1, (createFileOn hasGenerator now p o t).2) := by
  unfold createFile
  refine acts_tell_bind _ ?_
  let next (r : Except Fault String) : Effect (Plan × Bool) := fun _ t =>
    match r with
    | .ok content =>
      let written := SafeFile.written o.target content t
      (.ok (if written.1 then noteCreated p o else p, written.1), written.2)
    | .error _ => (.ok (p, false), t)
  refine ((acts_generate hasGenerator p o).attempt.bind (h := next) ?_).congr fun now t => ?_
  · intro r
    cases r with
    | error f => exact acts_tell_bind _ (Acts.pure (p, false))
    | ok content =>
      refine acts_tell_bind _ ?_
      let last (b : Bool) : Effect (Plan × Bool) := fun _ t =>
        (.ok (if b then noteCreated p o else p, b), t)
      refine ((SafeFile.acts_write o.target content).bind (h := last) ?_).congr fun now t => rfl
      intro b
      refine acts_tell_bind _ ?_
      cases b with
      | false => exact acts_tell_bind _ (Acts.pure _)
      | true => exact acts_tell_bind _ (Acts.pure _)
  · cases hasGenerator <;> rfl

private theorem acts_perform (hasGenerator : Bool) (p : Plan) (o : Operation) :
    Acts (perform hasGenerator p o) fun now t =>
      (.ok (performOn hasGenerator now p o t).1, (performOn hasGenerator now p o t).2) := by
  unfold perform performOn
  refine acts_tell_bind _ ?_
  split
  · exact acts_createFile hasGenerator p o
  · exact Acts.pure _

theorem acts_performAll (hasGenerator : Bool) (p : Plan) (created : Nat)
    (os : List (Option Operation)) :
    Acts (performAll hasGenerator p created os) fun now t =>
      (.ok (performAllOn hasGenerator now p created os t).1,
        (performAllOn hasGenerator now p created os t).2) := by
  induction os generalizing p created with
  | nil => exact Acts.pure _
  | cons o os ih =>
    cases o with
    | none => exact Acts.pure _
    | some o =>
      exact (acts_perform hasGenerator p o).bind fun done =>
        ih done.1 (if done.2 then created + 1 else created)

private theorem acts_executePlan (hasGenerator : Bool) (p : Plan) :
    Acts (executePlan hasGenerator p) fun now t =>
      (.ok (executePlanOn hasGenerator now p t).1, (executePlanOn hasGenerator now p t).2) := by
  unfold executePlan executePlanOn
  refine acts_tell_bind _ (acts_tell_bind _ (acts_tell_bind _ (acts_tell_bind _ ?_)))
  cases hexec : p.isExecutable with
  | false => exact acts_tell_bind _ (Acts.pure _)
  | true =>
    let last (r : Plan × Except Fault Nat) : Effect (Plan × Outcome) := fun _ t =>
      (.ok (ended r.1 r.2), t)
    refine (Acts.now.bind fun now => (acts_performAll hasGenerator (p.markExecuting now) 0
      p.operations).bind (h := last) ?_).congr fun now t => rfl
    rintro ⟨p', r⟩
    cases r with
    | ok created => exact acts_tell_bind _ (Acts.pure _)
    | error f => exact acts_tell_bind _ (Acts.pure _)

private theorem acts_executePlans (hasGenerator : Bool) (ps : List Plan) :
    Acts (ps.mapM (executePlan hasGenerator)) fun now t =>
      (.ok (executePlansOn hasGenerator now ps t).1, (executePlansOn hasGenerator now ps t).2) := by
  induction ps with
  | nil => exact Acts.pure []
  | cons p ps ih =>
    rw [List.mapM_cons]
    exact (acts_executePlan hasGenerator p).bind fun first => ih.bind fun others => Acts.pure _

theorem acts_executeAll (hasGenerator : Bool) (ps : List Plan) :
    Acts (executeAll hasGenerator ps) fun now t =>
      (.ok ((executePlansOn hasGenerator now ps t).1.map (·.1),
        Tally.of now ((executePlansOn hasGenerator now ps t).1.map (·.2))),
        (executePlansOn hasGenerator now ps t).2) := by
  let last (done : List (Plan × Outcome)) : Effect (List Plan × Tally) := fun now t =>
    (.ok (done.map (·.1), Tally.of now (done.map (·.2))), t)
  refine acts_tell_bind _
    (((acts_executePlans hasGenerator ps).bind (h := last) fun done => ?_).congr fun _ _ => rfl)
  exact (Acts.now.bind fun now => acts_tell_bind _ (Acts.pure (done.map (·.1),
    Tally.of now (done.map (·.2))))).congr fun _ _ => rfl

theorem executeAll_eq (hasGenerator : Bool) (ps : List Plan) (w : Workspace) :
    ∃ words, executeAll hasGenerator ps w =
      (.ok ((executePlansOn hasGenerator w.now ps w.files).1.map (·.1),
        Tally.of w.now ((executePlansOn hasGenerator w.now ps w.files).1.map (·.2))),
      { w with
        files := (executePlansOn hasGenerator w.now ps w.files).2
        printed := w.printed ++ words }) :=
  acts_executeAll hasGenerator ps w

/-! How plans come out of an execution. -/

/-- How a plan comes out of an execution: it is passed over, or carried out to its end, or given up
because an operation is missing. -/
inductive Settled (p : Plan) : Plan × Outcome → Prop
  | skipped : ¬ p.Executable → Settled p (p, .skipped)
  | completed {q : Plan} {created : Nat} : p.Executable → none ∉ p.operations →
      q.status = .completed → q.success = true → Settled p (q, .completed created)
  | failed {q : Plan} : p.Executable → none ∈ p.operations →
      q.status = .failed → q.success = false → Settled p (q, .failed)

private theorem performAllOn_isOk (hasGenerator : Bool) (now : Moment) (p : Plan) (created : Nat)
    (os : List (Option Operation)) (t : FileTree) :
    (performAllOn hasGenerator now p created os t).1.2.isOk = true ↔ none ∉ os := by
  induction os generalizing p created t with
  | nil => simp [performAllOn, Except.isOk, Except.toBool]
  | cons o os ih =>
    cases o with
    | none => simp [performAllOn, Except.isOk, Except.toBool]
    | some o => simp [performAllOn, ih]

theorem settled_executePlanOn (hasGenerator : Bool) (now : Moment) (p : Plan) (t : FileTree) :
    Settled p (executePlanOn hasGenerator now p t).1 := by
  rw [executePlanOn]
  split_ifs with hexec
  · have hp : p.Executable := Plan.isExecutable_iff.mp hexec
    have hok := performAllOn_isOk hasGenerator now (p.markExecuting now) 0 p.operations t
    generalize performAllOn hasGenerator now (p.markExecuting now) 0 p.operations t = done at hok ⊢
    rcases done with ⟨⟨p', r⟩, t'⟩
    cases r with
    | ok created => exact .completed hp (hok.mp rfl) rfl rfl
    | error f =>
      refine .failed hp ?_ rfl rfl
      by_contra hnone
      exact absurd (hok.mpr hnone) (by simp [Except.isOk, Except.toBool])
  · exact .skipped fun hp => hexec (Plan.isExecutable_iff.mpr hp)

theorem settled_executePlansOn (hasGenerator : Bool) (now : Moment) (ps : List Plan)
    (t : FileTree) : List.Forall₂ Settled ps (executePlansOn hasGenerator now ps t).1 := by
  induction ps generalizing t with
  | nil => exact .nil
  | cons p ps ih => exact .cons (settled_executePlanOn hasGenerator now p t) (ih _)

theorem executePlansOn_append (hasGenerator : Bool) (now : Moment) (ps qs : List Plan)
    (t : FileTree) :
    executePlansOn hasGenerator now (ps ++ qs) t =
      ((executePlansOn hasGenerator now ps t).1 ++
        (executePlansOn hasGenerator now qs (executePlansOn hasGenerator now ps t).2).1,
      (executePlansOn hasGenerator now qs (executePlansOn hasGenerator now ps t).2).2) := by
  induction ps generalizing t with
  | nil => rfl
  | cons p ps ih => simp [executePlansOn, ih]

private theorem Settled.not_executable {p : Plan} {r : Plan × Outcome} (h : Settled p r) :
    ¬ r.1.Executable := by
  cases h with
  | skipped hp => exact hp
  | completed _ _ hstatus _ =>
    rintro ⟨hready, _⟩
    simp [hstatus] at hready
  | failed _ _ hstatus _ =>
    rintro ⟨hready, _⟩
    simp [hstatus] at hready

private theorem not_executable_of_forall₂ {ps : List Plan} {rs : List (Plan × Outcome)}
    (h : List.Forall₂ Settled ps rs) : ∀ q ∈ rs.map (·.1), ¬ q.Executable := by
  induction h with
  | nil => simp
  | cons hp _ ih =>
    rw [List.map_cons, List.forall_mem_cons]
    exact ⟨hp.not_executable, ih⟩

private theorem executePlansOn_of_not_executable (hasGenerator : Bool) (now : Moment)
    {ps : List Plan} (h : ∀ p ∈ ps, ¬ p.Executable) (t : FileTree) :
    executePlansOn hasGenerator now ps t = (ps.map fun p => (p, .skipped), t) := by
  induction ps with
  | nil => rfl
  | cons p ps ih =>
    have hp : p.isExecutable = false := by
      rw [Bool.eq_false_iff, ne_eq, Plan.isExecutable_iff]
      exact h p (by simp)
    simp [executePlansOn, executePlanOn, hp, ih fun q hq => h q (by simp [hq])]

private theorem filesCreated_of_skipped (now : Moment) (ps : List (Plan × Outcome)) :
    (Tally.of now (ps.map fun _ => .skipped)).filesCreated = 0 := by
  induction ps with
  | nil => rfl
  | cons _ ps ih => simpa [Tally.of, Outcome.created] using ih

/-! The counts. -/

/-- Outcomes are counted by what decides them: the plan before and after. -/
private theorem countP_outcomes (counted : Outcome → Bool) (decided : Plan → Plan → Bool)
    (h : ∀ p r, Settled p r → counted r.2 = decided p r.1) {ps : List Plan}
    {rs : List (Plan × Outcome)} (hsettled : List.Forall₂ Settled ps rs) :
    (rs.map (·.2)).countP counted =
      (ps.zip (rs.map (·.1))).countP fun (p, q) => decided p q := by
  induction hsettled with
  | nil => rfl
  | cons hp _ ih => simp [List.countP_cons, ih, h _ _ hp]

theorem countP_outcomes_before (counted : Outcome → Bool) {decided : Plan → Bool}
    (h : ∀ p r, Settled p r → counted r.2 = decided p) {ps : List Plan}
    {rs : List (Plan × Outcome)} (hsettled : List.Forall₂ Settled ps rs) :
    (rs.map (·.2)).countP counted = ps.countP decided := by
  have hlength : ps.length ≤ (rs.map (·.1)).length := by
    rw [List.length_map, hsettled.length_eq]
  calc (rs.map (·.2)).countP counted
      = (ps.zip (rs.map (·.1))).countP (decided ∘ Prod.fst) :=
        countP_outcomes counted (fun p _ => decided p) h hsettled
    _ = ((ps.zip (rs.map (·.1))).map Prod.fst).countP decided := by rw [List.countP_map]
    _ = ps.countP decided := by rw [List.map_fst_zip hlength]

private theorem isCompleted_of_settled (p : Plan) (r : Plan × Outcome) (h : Settled p r) :
    r.2.isCompleted = (p.isExecutable && r.1.status == .completed) := by
  cases h with
  | skipped hnot => simp [Outcome.isCompleted, mt Plan.isExecutable_iff.mp hnot]
  | completed hexec _ hstatus _ =>
    simp [Outcome.isCompleted, Plan.isExecutable_iff.mpr hexec, hstatus]
  | failed _ _ hstatus _ => simp [Outcome.isCompleted, hstatus]

private theorem isFailed_of_settled (p : Plan) (r : Plan × Outcome) (h : Settled p r) :
    (r.2 == .failed) = (p.isExecutable && r.1.status == .failed) := by
  cases h with
  | skipped hnot => simp [mt Plan.isExecutable_iff.mp hnot]
  | completed hexec _ hstatus _ =>
    rw [Plan.isExecutable_iff.mpr hexec, hstatus]
    rfl
  | failed hexec _ hstatus _ => simp [Plan.isExecutable_iff.mpr hexec, hstatus]

private theorem isSkipped_of_settled (p : Plan) (r : Plan × Outcome) (h : Settled p r) :
    (r.2 == .skipped) = !p.isExecutable := by
  cases h with
  | skipped hnot => simp [mt Plan.isExecutable_iff.mp hnot]
  | completed hexec _ _ _ => simp [Plan.isExecutable_iff.mpr hexec]
  | failed hexec _ _ _ => simp [Plan.isExecutable_iff.mpr hexec]

private theorem length_eq_counts (outcomes : List Outcome) :
    outcomes.length = outcomes.countP Outcome.isCompleted + outcomes.countP (· == .failed) +
      outcomes.countP (· == .skipped) := by
  induction outcomes with
  | nil => rfl
  | cons o outcomes ih =>
    simp only [List.length_cons, List.countP_cons, ih]
    cases o <;> simp [Outcome.isCompleted] <;> omega

/-- Every executable plan ends completed or failed and is counted so, all others are passed over,
and whoever executes the same plans again, in whatever workspace, changes neither files nor
plans. -/
theorem executeAll_settles (hasGenerator : Bool) (ps : List Plan) (w : Workspace) :
    ∃ qs tally w', executeAll hasGenerator ps w = (.ok (qs, tally), w') ∧
      List.Forall₂ (fun p q => (¬ p.Executable → q = p) ∧ (p.Executable →
        q.status = .completed ∧ q.success = true ∨ q.status = .failed ∧ q.success = false)) ps qs ∧
      tally.successful =
        ((ps.zip qs).countP fun (p, q) => p.isExecutable && q.status == .completed) ∧
      tally.failed = ((ps.zip qs).countP fun (p, q) => p.isExecutable && q.status == .failed) ∧
      tally.executed = tally.successful + tally.failed + ps.countP (!·.isExecutable) ∧
      ∀ (again : Bool) (v : Workspace), ∃ tally' words,
        executeAll again qs v = (.ok (qs, tally'), { v with printed := v.printed ++ words }) ∧
        tally'.successful = 0 ∧ tally'.failed = 0 ∧ tally'.filesCreated = 0 := by
  obtain ⟨words, hrun⟩ := executeAll_eq hasGenerator ps w
  have hsettled := settled_executePlansOn hasGenerator w.now ps w.files
  have hsuccessful := countP_outcomes Outcome.isCompleted
    (fun p q => p.isExecutable && q.status == .completed) isCompleted_of_settled hsettled
  have hfailed := countP_outcomes (· == .failed)
    (fun p q => p.isExecutable && q.status == .failed) isFailed_of_settled hsettled
  have hskipped := countP_outcomes_before (· == .skipped) isSkipped_of_settled hsettled
  refine ⟨_, _, _, hrun, ?_, hsuccessful, hfailed, ?_, ?_⟩
  · rw [List.forall₂_map_right_iff]
    refine hsettled.imp fun p r hr => ?_
    cases hr with
    | skipped hnot => exact ⟨fun _ => rfl, fun hp => absurd hp hnot⟩
    | completed hp _ hstatus hsuccess =>
      exact ⟨fun hnot => absurd hp hnot, fun _ => Or.inl ⟨hstatus, hsuccess⟩⟩
    | failed hp _ hstatus hsuccess =>
      exact ⟨fun hnot => absurd hp hnot, fun _ => Or.inr ⟨hstatus, hsuccess⟩⟩
  · rw [← hskipped]
    exact length_eq_counts _
  · intro again v
    obtain ⟨more, hagain⟩ := executeAll_eq again
      ((executePlansOn hasGenerator w.now ps w.files).1.map (·.1)) v
    rw [executePlansOn_of_not_executable again v.now (not_executable_of_forall₂ hsettled)] at hagain
    simp only [List.map_map, Function.comp_def] at hagain
    exact ⟨_, more, hagain, by simp [Tally.of, Outcome.isCompleted], by simp [Tally.of],
      filesCreated_of_skipped v.now _⟩

end SuiteTidy.Execution
