import SuiteTidy.Proofs.Plan.Execution

/-!
What a completed plan has achieved. A plan is completed unless one of its operations is missing, and
nothing else about its operations counts: a file that could not be written, a text of its own that a
file should hold, a file to be deleted or modified. So a completed plan has been carried out exactly
if every file was written and was to hold the text that is made for it, every file to be deleted was
gone before, and every file to be modified was listed before.
-/

set_option autoImplicit false
set_option relaxedAutoImplicit false

namespace SuiteTidy.Plan

/-- A property of every operation of a plan, along with what stands before it in the list. -/
def EachOperation (p : Plan) (holds : List (Option Operation) → Operation → Prop) : Prop :=
  ∀ done o rest, p.operations = done ++ some o :: rest → holds done o

end SuiteTidy.Plan

namespace SuiteTidy.Execution

open SuiteTidy.Work

def wanted (now : Moment) (p : Plan) (o : Operation) : String :=
  o.content.getD (contentFor now p o)

def HoldsWanted (now : Moment) (p : Plan) (o : Operation) (t : FileTree) : Prop :=
  ∃ path, SafeFile.pathOf o.target = .ok path ∧
    t.readContent path = .ok (.bytes (wanted now p o).toUTF8)

def IsGone (o : Operation) (t : FileTree) : Prop :=
  ∀ path, SafeFile.pathOf o.target = .ok path → t.exists_ path ≠ .ok true

def IsModified (q : Plan) (o : Operation) : Prop :=
  ∃ path, SafeFile.pathOf o.target = .ok path ∧ path ∈ q.filesModified

def TookEffect (p q : Plan) (o : Operation) (v : Workspace) : Prop :=
  (o.action = "create" → HoldsWanted v.now p o v.files) ∧
  (o.action = "delete" → IsGone o v.files) ∧
  (o.action = "modify" → IsModified q o)

/-- What makes an operation take effect, in the workspace in which it is reached. A file that is to
be created must be written and have no text of its own, or the same; without a generator, it must be
there with its text already. A file that is to be deleted must be gone already, and one that is to
be modified must be listed already. -/
def WillTakeEffect (hasGenerator : Bool) (p : Plan) (o : Operation) (v : Workspace) : Prop :=
  (o.action = "create" →
    if hasGenerator then
      (SafeFile.write o.target (contentFor v.now p o) false v).1 = .ok true ∧
        wanted v.now p o = contentFor v.now p o
    else HoldsWanted v.now p o v.files) ∧
  (o.action = "delete" → IsGone o v.files) ∧
  (o.action = "modify" → IsModified p o)

/-- The workspace in which a plan has come behind some of its operations, after the plans before it
have been executed. -/
def reached (hasGenerator : Bool) (before : List Plan) (p : Plan) (done : List (Option Operation))
    (w : Workspace) : Workspace :=
  (performAll hasGenerator (p.markExecuting w.now) 0 done (executeAll hasGenerator before w).2).2

/-! Operations change nothing of a plan but the files created. -/

theorem performOn_plan (hasGenerator : Bool) (now : Moment) (p : Plan) (o : Operation)
    (t : FileTree) :
    ∃ created, (performOn hasGenerator now p o t).1.1 = { p with filesCreated := created } := by
  simp only [performOn, createFileOn, noteCreated]
  split_ifs
  · cases o.target with
    | none => exact ⟨p.filesCreated, rfl⟩
    | some r => exact ⟨_, rfl⟩
  · exact ⟨p.filesCreated, rfl⟩
  · exact ⟨p.filesCreated, rfl⟩
  · exact ⟨p.filesCreated, rfl⟩

private theorem performAllOn_plan (hasGenerator : Bool) (now : Moment) (p : Plan) (n : Nat)
    (os : List (Option Operation)) (t : FileTree) :
    ∃ created,
      (performAllOn hasGenerator now p n os t).1.1 = { p with filesCreated := created } := by
  induction os generalizing p n t with
  | nil => exact ⟨p.filesCreated, rfl⟩
  | cons o os ih =>
    cases o with
    | none => exact ⟨p.filesCreated, rfl⟩
    | some o =>
      obtain ⟨first, hfirst⟩ := performOn_plan hasGenerator now p o t
      obtain ⟨created, hothers⟩ := ih (performOn hasGenerator now p o t).1.1
        (if (performOn hasGenerator now p o t).1.2 then n + 1 else n)
        (performOn hasGenerator now p o t).2
      refine ⟨created, ?_⟩
      rw [performAllOn, hothers, hfirst]

private theorem performOn_files_of_created (hasGenerator : Bool) (now : Moment) (p : Plan)
    (created : Option (List FileRef)) (o : Operation) (t : FileTree) :
    (performOn hasGenerator now { p with filesCreated := created } o t).2 =
      (performOn hasGenerator now p o t).2 := by
  simp only [performOn, createFileOn]
  split_ifs <;> rfl

private theorem performAllOn_append_files (hasGenerator : Bool) (now : Moment) (p : Plan) (n : Nat)
    {done : List (Option Operation)} (hdone : none ∉ done) (o : Operation) (t : FileTree) :
    (performAllOn hasGenerator now p n (done ++ [some o]) t).2 =
      (performOn hasGenerator now p o (performAllOn hasGenerator now p n done t).2).2 := by
  induction done generalizing p n t with
  | nil => rfl
  | cons x done ih =>
    cases x with
    | none => simp at hdone
    | some x =>
      obtain ⟨created, hplan⟩ := performOn_plan hasGenerator now p x t
      simp only [List.mem_cons, not_or] at hdone
      simp only [List.cons_append, performAllOn]
      rw [ih _ _ hdone.2, hplan, performOn_files_of_created]

/-! What one operation achieves. -/

theorem write_eq_true_iff (target : Option FileRef) (content : String) (v : Workspace) :
    (SafeFile.write target content false v).1 = .ok true ↔
      (SafeFile.written target content v.files).1 = true := by
  obtain ⟨words, hwrite⟩ := SafeFile.acts_write target content v
  rw [hwrite]
  simp

private theorem holdsWanted_performOn (now : Moment) (p : Plan) {o : Operation}
    (hcreate : o.action = "create") (t : FileTree) :
    HoldsWanted now p o (performOn true now p o t).2 ↔
      (SafeFile.written o.target (contentFor now p o) t).1 = true ∧
        wanted now p o = contentFor now p o := by
  have hfiles : (performOn true now p o t).2 =
      (SafeFile.written o.target (contentFor now p o) t).2 := by
    simp [performOn, createFileOn, hcreate]
  rw [HoldsWanted, hfiles]
  constructor
  · rintro ⟨path, hpath, hread⟩
    obtain ⟨hwritten, hcontent⟩ := (SafeFile.readContent_written hpath _ t _).mp hread
    exact ⟨hwritten, String.toByteArray_inj.mp (Content.bytes.inj hcontent)⟩
  · rintro ⟨hwritten, hwanted⟩
    cases hpath : SafeFile.pathOf o.target with
    | error f => simp [SafeFile.written, hpath] at hwritten
    | ok path =>
      refine ⟨path, rfl, (SafeFile.readContent_written hpath _ t _).mpr ⟨hwritten, ?_⟩⟩
      rw [hwanted]

private theorem performOn_files {hasGenerator : Bool} {o : Operation}
    (h : o.action ≠ "create" ∨ hasGenerator = false) (now : Moment) (p : Plan) (t : FileTree) :
    (performOn hasGenerator now p o t).2 = t := by
  rcases h with hcreate | rfl
  · simp [performOn, hcreate]
  · simp [performOn, createFileOn]

private theorem reached_now (hasGenerator : Bool) (before : List Plan) (p : Plan)
    (done : List (Option Operation)) (w : Workspace) :
    (reached hasGenerator before p done w).now = w.now := by
  obtain ⟨words, hbefore⟩ := executeAll_eq hasGenerator before w
  obtain ⟨more, hdone⟩ := acts_performAll hasGenerator (p.markExecuting w.now) 0 done
    (executeAll hasGenerator before w).2
  rw [reached, hdone, hbefore]

theorem reached_files (hasGenerator : Bool) (before : List Plan) (p : Plan)
    (done : List (Option Operation)) (w : Workspace) :
    (reached hasGenerator before p done w).files =
      (performAllOn hasGenerator w.now (p.markExecuting w.now) 0 done
        (executePlansOn hasGenerator w.now before w.files).2).2 := by
  obtain ⟨words, hbefore⟩ := executeAll_eq hasGenerator before w
  obtain ⟨more, hdone⟩ := acts_performAll hasGenerator (p.markExecuting w.now) 0 done
    (executeAll hasGenerator before w).2
  rw [reached, hdone, hbefore]

private theorem reached_append_files (hasGenerator : Bool) (before : List Plan) (p : Plan)
    {done : List (Option Operation)} (hdone : none ∉ done) (o : Operation) (w : Workspace) :
    (reached hasGenerator before p (done ++ [some o]) w).files =
      (performOn hasGenerator w.now p o (reached hasGenerator before p done w).files).2 := by
  rw [reached_files, reached_files, performAllOn_append_files _ _ _ _ hdone]
  simp only [performOn, createFileOn, Plan.markExecuting]
  split_ifs <;> rfl

/-- An operation takes effect exactly if the workspace in which it is reached makes it so. -/
private theorem tookEffect_iff (hasGenerator : Bool) (before : List Plan) {p q : Plan}
    (hmodified : q.filesModified = p.filesModified) {done : List (Option Operation)}
    (hdone : none ∉ done) (o : Operation) (w : Workspace) :
    TookEffect p q o (reached hasGenerator before p (done ++ [some o]) w) ↔
      WillTakeEffect hasGenerator p o (reached hasGenerator before p done w) := by
  rw [TookEffect, WillTakeEffect, reached_now, reached_now,
    reached_append_files hasGenerator before p hdone]
  refine and_congr (imp_congr_right fun hcreate => ?_)
    (and_congr (imp_congr_right fun hdelete => ?_) (imp_congr_right fun _ => ?_))
  · cases hasGenerator with
    | true => rw [holdsWanted_performOn w.now p hcreate, if_pos rfl, write_eq_true_iff]
    | false => rw [performOn_files (.inr rfl), if_neg Bool.false_ne_true]
  · rw [performOn_files (.inl (by simp [hdelete]))]
  · rw [IsModified, IsModified, hmodified]

/-! How a plan ends. -/

theorem executePlanOn_files {p : Plan} (hp : p.Executable) (hasGenerator : Bool)
    (now : Moment) (t : FileTree) :
    (executePlanOn hasGenerator now p t).2 =
      (performAllOn hasGenerator now (p.markExecuting now) 0 p.operations t).2 := by
  rw [executePlanOn, if_pos (Plan.isExecutable_iff.mpr hp)]

private theorem executePlanOn_filesModified (hasGenerator : Bool) (now : Moment) (p : Plan)
    (t : FileTree) : (executePlanOn hasGenerator now p t).1.1.filesModified = p.filesModified := by
  obtain ⟨created, hplan⟩ :=
    performAllOn_plan hasGenerator now (p.markExecuting now) 0 p.operations t
  rw [executePlanOn]
  split_ifs
  · simp only [hplan]
    cases (performAllOn hasGenerator now (p.markExecuting now) 0 p.operations t).1.2 <;> rfl
  · rfl

private theorem executePlanOn_status {p : Plan} (hp : p.Executable) (hasGenerator : Bool)
    (now : Moment) (t : FileTree) :
    (executePlanOn hasGenerator now p t).1.1.status =
      if none ∈ p.operations then .failed else .completed := by
  have hsettled := settled_executePlanOn hasGenerator now p t
  generalize executePlanOn hasGenerator now p t = r at hsettled
  obtain ⟨r, t'⟩ := r
  cases hsettled with
  | skipped hnot => exact absurd hp hnot
  | completed _ hall hstatus _ => rw [hstatus, if_neg hall]
  | failed _ hmissing hstatus _ => rw [hstatus, if_pos hmissing]

theorem Settled.isCompleted_eq (p : Plan) (r : Plan × Outcome) (h : Settled p r) :
    r.2.isCompleted = (p.isExecutable && !p.operations.contains none) := by
  cases h with
  | skipped hnot =>
    rw [Bool.eq_false_iff.mpr (mt Plan.isExecutable_iff.mp hnot)]
    rfl
  | completed hp hall _ _ => simp [Plan.isExecutable_iff.mpr hp, hall, Outcome.isCompleted]
  | failed _ hmissing _ _ => simp [hmissing, Outcome.isCompleted]

theorem Settled.isFailed_eq (p : Plan) (r : Plan × Outcome) (h : Settled p r) :
    (r.2 == .failed) = (p.isExecutable && p.operations.contains none) := by
  cases h with
  | skipped hnot =>
    rw [Bool.eq_false_iff.mpr (mt Plan.isExecutable_iff.mp hnot)]
    rfl
  | completed _ hall _ _ => simp [hall]
  | failed hp hmissing _ _ => simp [Plan.isExecutable_iff.mpr hp, hmissing]

/-- An executable plan ends completed, and is counted so, unless one of its operations is missing;
whether its operations took effect does not count. So all operations of a completed plan have taken
effect exactly if each was bound to, in the workspace in which it was reached. -/
theorem executeAll_completed_iff (hasGenerator : Bool) (before after : List Plan) {p : Plan}
    (hp : p.Executable) (w : Workspace) :
    ∃ qs q rest tally w',
      executeAll hasGenerator (before ++ p :: after) w = (.ok (qs ++ q :: rest, tally), w') ∧
      qs.length = before.length ∧ rest.length = after.length ∧
      w'.files =
        (executeAll hasGenerator after (reached hasGenerator before p p.operations w)).2.files ∧
      q.status = (if none ∈ p.operations then .failed else .completed) ∧
      tally.successful = (before ++ p :: after).countP
        (fun r => r.isExecutable && !r.operations.contains none) ∧
      tally.failed = (before ++ p :: after).countP
        (fun r => r.isExecutable && r.operations.contains none) ∧
      ((q.status = .completed → p.EachOperation fun done o =>
          TookEffect p q o (reached hasGenerator before p (done ++ [some o]) w)) ↔
        none ∈ p.operations ∨ p.EachOperation fun done o =>
          WillTakeEffect hasGenerator p o (reached hasGenerator before p done w)) := by
  obtain ⟨words, hrun⟩ := executeAll_eq hasGenerator (before ++ p :: after) w
  have hsettled := settled_executePlansOn hasGenerator w.now (before ++ p :: after) w.files
  have hlength : ∀ (ps : List Plan) (t : FileTree),
      ((executePlansOn hasGenerator w.now ps t).1.map (·.1)).length = ps.length := by
    intro ps t
    rw [List.length_map, (settled_executePlansOn hasGenerator w.now ps t).length_eq]
  have hsuccessful := countP_outcomes_before Outcome.isCompleted Settled.isCompleted_eq hsettled
  have hfailed := countP_outcomes_before (· == .failed) Settled.isFailed_eq hsettled
  obtain ⟨more, hafter⟩ := executeAll_eq hasGenerator after
    (reached hasGenerator before p p.operations w)
  -- The plan finds the files as those before it left them.
  let found := (executePlansOn hasGenerator w.now before w.files).2
  have hstatus := executePlanOn_status hp hasGenerator w.now found
  have hmodified := executePlanOn_filesModified hasGenerator w.now p found
  have hfiles : (executePlanOn hasGenerator w.now p found).2 =
      (reached hasGenerator before p p.operations w).files := by
    rw [executePlanOn_files hp, reached_files]
  rw [executePlansOn_append, executePlansOn] at hrun hsuccessful hfailed
  simp only [List.map_append, List.map_cons] at hrun hsuccessful hfailed
  refine ⟨_, _, _, _, _, hrun, hlength _ _, hlength _ _, ?_, hstatus, hsuccessful, hfailed, ?_⟩
  · rw [hafter, reached_now]
    simp only [found] at hfiles
    rw [← hfiles]
  · by_cases hmissing : none ∈ p.operations
    · rw [hstatus, if_pos hmissing]
      simp [hmissing]
    · rw [hstatus, if_neg hmissing]
      simp only [forall_const, hmissing, false_or]
      refine forall₄_congr fun done o rest hops => ?_
      have hdone : none ∉ done := fun h => hmissing (by rw [hops]; simp [h])
      exact tookEffect_iff hasGenerator before hmodified hdone o w

def ownText : Operation :=
  { action := "create", target := some (.path { parts := ["new.ts"] }),
    content := some "const x = 1;", reason := "Create" }

def ownTextPlan : Plan :=
  { id := "plan_1", source := some (.path { parts := ["app.spec.ts"] }), action := .keepAsIs,
    reason := "Create", description := "", operations := [some ownText], confidence := .int 1,
    status := .ready, createdAt := { micros := 0 } }

/-- A plan can be completed although its file does not hold the text that it was to hold. -/
theorem executeAll_completed_iff_ownText :
    ownTextPlan.Executable ∧ ∃ q tally w',
      executeAll true [ownTextPlan] { now := { micros := 0 } } = (.ok ([q], tally), w') ∧
      q.status = .completed ∧ tally.successful = 1 ∧
      ¬ ownTextPlan.EachOperation fun done o => TookEffect ownTextPlan q o
        (reached true [] ownTextPlan (done ++ [some o]) { now := { micros := 0 } }) := by
  have hexec : ownTextPlan.Executable := ⟨rfl, by simp [ownTextPlan], by decide⟩
  have hcomplete : none ∉ ownTextPlan.operations := by decide
  have hother : wanted { micros := 0 } ownTextPlan ownText ≠
      contentFor { micros := 0 } ownTextPlan ownText := by decide +kernel
  obtain ⟨qs, q, rest, tally, w', hrun, hbefore, hafter, -, hstatus, hcount, -, hiff⟩ :=
    executeAll_completed_iff true [] [] hexec { now := { micros := 0 } }
  obtain rfl : qs = [] := List.eq_nil_of_length_eq_zero hbefore
  obtain rfl : rest = [] := List.eq_nil_of_length_eq_zero hafter
  refine ⟨hexec, q, tally, w', hrun, by rw [hstatus, if_neg hcomplete], ?_, ?_⟩
  · rw [hcount]
    decide
  · intro heffect
    rcases hiff.mp fun _ => heffect with hmissing | hall
    · exact hcomplete hmissing
    · have hcreate := (hall [] ownText [] rfl).1 rfl
      rw [reached_now] at hcreate
      exact hother hcreate.2

end SuiteTidy.Execution
