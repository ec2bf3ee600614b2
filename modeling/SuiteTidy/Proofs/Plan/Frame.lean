import SuiteTidy.Proofs.Files.Frame
import SuiteTidy.Proofs.Plan.Execution

/-!
What an execution leaves alone. One operation writes at most the file that it creates, and so a run
over any plans writes only files that an executable plan creates, makes only directories above them,
and takes nothing away. A dry run does not touch the files at all, and gives the plans back as they
are.
-/

set_option autoImplicit false
set_option relaxedAutoImplicit false

namespace SuiteTidy.Plan

def AvoidsDots (p : Plan) : Prop :=
  ∀ o, some o ∈ p.operations → ∀ path, SafeFile.pathOf o.target = .ok path → ".." ∉ path.parts

def Creates (p : Plan) (place : Place) : Prop :=
  ∃ o path, some o ∈ p.operations ∧ o.action = "create" ∧ SafeFile.pathOf o.target = .ok path ∧
    FileTree.placeOf path = place

end SuiteTidy.Plan

namespace SuiteTidy.Execution

open SuiteTidy.Work SuiteTidy.FileTree

section Steps

variable {targets : Place → Prop} (hasGenerator : Bool) (now : Moment)

private def CreatesAt (targets : Place → Prop) (o : Operation) : Prop :=
  o.action = "create" → ∀ path, SafeFile.pathOf o.target = .ok path →
    ".." ∉ path.parts ∧ targets (placeOf path)

private theorem grownAt_performOn (p : Plan) {o : Operation} (ho : CreatesAt targets o)
    (t : FileTree) : GrownAt targets t (performOn hasGenerator now p o t).2 := by
  unfold performOn createFileOn
  split_ifs with hcreate
  · exact SafeFile.grownAt_written (ho hcreate) _ t
  · exact GrownAt.refl targets t
  · exact GrownAt.refl targets t

private theorem grownAt_performAllOn (p : Plan) (created : Nat) {os : List (Option Operation)}
    (hos : ∀ o, some o ∈ os → CreatesAt targets o) (t : FileTree) :
    GrownAt targets t (performAllOn hasGenerator now p created os t).2 := by
  induction os generalizing p created t with
  | nil => exact GrownAt.refl targets t
  | cons o os ih =>
    cases o with
    -- A missing operation ends the plan; what was written before it stays.
    | none => exact GrownAt.refl targets t
    | some o =>
      have hfirst := grownAt_performOn hasGenerator now p (hos o (by simp)) t
      refine hfirst.trans (ih _ _ ?_ _)
      intro o' ho'
      exact hos o' (by simp [ho'])

private theorem grownAt_executePlanOn {p : Plan} (hdots : p.AvoidsDots)
    (htargets : p.Executable → ∀ place, p.Creates place → targets place) (t : FileTree) :
    GrownAt targets t (executePlanOn hasGenerator now p t).2 := by
  unfold executePlanOn
  split_ifs with hexec
  · refine grownAt_performAllOn hasGenerator now _ 0 ?_ t
    intro o ho hcreate path hpath
    refine ⟨hdots o ho path hpath, ?_⟩
    apply htargets (Plan.isExecutable_iff.mp hexec)
    exact ⟨o, path, ho, hcreate, hpath, rfl⟩
  · exact GrownAt.refl targets t

private theorem grownAt_executePlansOn {ps : List Plan} (hdots : ∀ p ∈ ps, p.AvoidsDots)
    (htargets : ∀ p ∈ ps, p.Executable → ∀ place, p.Creates place → targets place)
    (t : FileTree) : GrownAt targets t (executePlansOn hasGenerator now ps t).2 := by
  induction ps generalizing t with
  | nil => exact GrownAt.refl targets t
  | cons p ps ih =>
    rw [List.forall_mem_cons] at hdots htargets
    have hfirst := grownAt_executePlanOn hasGenerator now hdots.1 htargets.1 t
    exact hfirst.trans (ih hdots.2 htargets.2 _)

end Steps

/-! Requests to execute plans. -/

theorem acts_live {r : Request} (hlive : r.dryRun = false) :
    Acts (run r) fun now t =>
      (.ok ((executePlansOn r.hasGenerator now r.plans t).1.map (·.1),
        Tally.of now ((executePlansOn r.hasGenerator now r.plans t).1.map (·.2))),
        (executePlansOn r.hasGenerator now r.plans t).2) := by
  have hplans := acts_executeAll r.hasGenerator r.plans
  let last (done : List Plan × Tally) : Effect (List Plan × Tally) := fun _ t => (.ok done, t)
  unfold run
  refine Acts.printLine_bind _ (Acts.printLine_bind _ (Acts.printLine_bind _ ?_))
  refine Acts.printLine_bind _ (Acts.printLine_bind _ ?_)
  simp only [hlive, Bool.false_eq_true, if_false]
  split
  · refine Acts.printLine_bind _ (Acts.printLine_bind _ (Acts.printLine_bind _ ?_))
    refine hplans.bind (h := last) fun done => ?_
    refine Acts.printLine_bind _ (Acts.printLine_bind _ (Acts.printLine_bind _ ?_))
    exact Acts.printLine_bind _ (Acts.printLine_bind _ (Acts.pure done))
  · exact hplans.bind (h := last) fun done => Acts.pure done

/-- What a preview of plans comes to: nothing, or the fault of the first plan whose source has no
name. -/
def previewed : List Plan → Except Fault Unit
  | [] => .ok ()
  | p :: ps =>
    match FileRef.asPath "name" p.source with
    | .ok _ => previewed ps
    | .error f => .error f

theorem previewed_eq_ok_iff (ps : List Plan) :
    previewed ps = .ok () ↔ ∀ p ∈ ps, ∃ file, p.source = some (.path file) := by
  induction ps with
  | nil => simp [previewed]
  | cons p ps ih =>
    rw [List.forall_mem_cons, ← ih, previewed]
    rcases p.source with _ | ref
    · simp [FileRef.asPath]
    · cases ref with
      | path file => simp [FileRef.asPath]
      | plain s => simp [FileRef.asPath]

private theorem acts_preview (p : Plan) :
    Acts (preview p) fun _ t =>
      ((FileRef.asPath "name" p.source).map fun _ => (), t) := by
  unfold preview
  refine Acts.printLine_bind _ (Acts.printLine_bind _ ?_)
  refine ((Acts.lift (FileRef.asPath "name" p.source)).bind fun file =>
    Acts.printLine_bind _ (Acts.printLine_bind _ (Acts.printLine ""))).congr fun now t => ?_
  simp only [Effect.andThen]
  cases FileRef.asPath "name" p.source <;> rfl

private theorem acts_previews (ps : List Plan) :
    Acts (forIn ps PUnit.unit fun p _ => do
      preview p
      pure (ForInStep.yield PUnit.unit)) fun _ t => (previewed ps, t) := by
  induction ps with
  | nil => exact Acts.pure _
  | cons p ps ih =>
    rw [List.forIn_cons]
    have hfirst := (acts_preview p).bind fun _ => Acts.pure (ForInStep.yield PUnit.unit)
    let next (s : ForInStep PUnit) : Effect PUnit := fun _ t =>
      match s with
      | .done u => (.ok u, t)
      | .yield _ => (previewed ps, t)
    refine (hfirst.bind (h := next) fun s => ?_).congr fun now t => ?_
    · cases s with
      | done u => exact Acts.pure u
      | yield u => exact ih
    · simp only [Effect.andThen, previewed]
      cases FileRef.asPath "name" p.source <;> rfl

theorem acts_dry {r : Request} (hdry : r.dryRun = true) :
    Acts (run r) fun now t =>
      ((if r.verbose then previewed r.plans else .ok ()).map fun _ =>
        (r.plans, { executed := r.plans.length, successful := r.plans.length,
                    filesCreated := (r.plans.map (·.operations.length)).foldr (· + ·) 0,
                    finishedAt := now }), t) := by
  unfold run simulate
  refine Acts.printLine_bind _ (Acts.printLine_bind _ (Acts.printLine_bind _ ?_))
  refine Acts.printLine_bind _ (Acts.printLine_bind _ ?_)
  simp only [hdry, if_true]
  split
  · refine Acts.printLine_bind _ (Acts.printLine_bind _ (Acts.printLine_bind _ ?_))
    refine Acts.printLine_bind _ ?_
    refine ((acts_previews r.plans).bind fun _ => Acts.now.bind fun now => Acts.pure _).congr ?_
    intro now t
    simp only [Effect.andThen]
    cases previewed r.plans <;> rfl
  · exact Acts.now.bind fun now => Acts.pure _

/-- Executing plans whose targets have no double dots, with or without a copy of old files, makes
the tree grow only at the places of the files that executable plans create. A dry run leaves the
whole tree as it is and gives the plans back; it can fail only where it tells about a plan whose
source has no name. -/
theorem run_grownAt (r : Request) (w : Workspace) :
    (r.dryRun = false → (∀ p ∈ r.plans, p.AvoidsDots) →
      ∃ qs tally w', run r w = (.ok (qs, tally), w') ∧
        w'.files = (executeAll r.hasGenerator r.plans w).2.files ∧
        GrownAt (fun place => ∃ p ∈ r.plans, p.Executable ∧ p.Creates place) w.files w'.files) ∧
    (r.dryRun = true →
      ∃ result words, run r w = (result, { w with printed := w.printed ++ words }) ∧
        ((∃ tally, result = .ok (r.plans, tally)) ∨
          (∃ f, result = .error f) ∧ r.verbose = true ∧
            ∃ p ∈ r.plans, ∀ file, p.source ≠ some (.path file))) := by
  constructor
  · intro hlive hdots
    obtain ⟨words, hrun⟩ := acts_live hlive w
    obtain ⟨more, hplans⟩ := executeAll_eq r.hasGenerator r.plans w
    refine ⟨_, _, _, hrun, by rw [hplans], ?_⟩
    apply grownAt_executePlansOn r.hasGenerator w.now hdots
    intro p hp hexec place hplace
    exact ⟨p, hp, hexec, hplace⟩
  · intro hdry
    obtain ⟨words, hrun⟩ := acts_dry hdry w
    refine ⟨_, words, hrun, ?_⟩
    cases hverbose : r.verbose with
    | false => exact .inl ⟨_, rfl⟩
    | true =>
      cases hnamed : previewed r.plans with
      | ok u => exact .inl ⟨_, rfl⟩
      | error f =>
        refine .inr ⟨⟨f, rfl⟩, rfl, ?_⟩
        have hsome := mt (previewed_eq_ok_iff r.plans).mpr (by simp [hnamed])
        simpa only [not_forall, not_exists, exists_prop] using hsome

def nestedCreation : Plan :=
  { id := "plan_1", source := some (.path { parts := ["a.spec.ts"] }), action := .splitByConcern,
    reason := "Split", description := "Split a.spec.ts",
    operations := [some { action := "create",
                          target := some (.path { parts := ["src", "a.part1.spec.ts"] }) }],
    confidence := .int 1, status := .ready, createdAt := { micros := 0 } }

def oneFile : Workspace :=
  { files := { entries := [(["a.spec.ts"], .file (.bytes "test".toUTF8))] },
    now := { micros := 0 } }

theorem run_grownAt_nestedCreation :
    nestedCreation.AvoidsDots ∧ ∃ qs tally w',
      run { plans := [nestedCreation] } oneFile = (.ok (qs, tally), w') ∧
      w'.files.lookup ["a.spec.ts"] = some (.file (.bytes "test".toUTF8)) := by
  have hpath : ∀ o path, some o ∈ nestedCreation.operations → SafeFile.pathOf o.target = .ok path →
      path = { parts := ["src", "a.part1.spec.ts"] } := by
    intro o path ho hpath
    simp only [nestedCreation, List.mem_singleton, Option.some.injEq] at ho
    subst ho
    exact (Except.ok.inj hpath).symm
  have hdots : nestedCreation.AvoidsDots := by
    intro o ho path hpath'
    rw [hpath o path ho hpath']
    decide
  have hplans : ∀ p ∈ [nestedCreation], p.AvoidsDots := by simpa using hdots
  obtain ⟨qs, tally, w', hrun, -, hgrown⟩ :=
    (run_grownAt { plans := [nestedCreation] } oneFile).1 rfl hplans
  refine ⟨hdots, qs, tally, w', hrun, hgrown.file_kept _ _ rfl ?_⟩
  rintro ⟨p, hp, -, o, path, ho, -, hpath', hplace⟩
  rw [List.mem_singleton.mp hp] at ho
  rw [hpath o path ho hpath'] at hplace
  simp [placeOf] at hplace

end SuiteTidy.Execution
