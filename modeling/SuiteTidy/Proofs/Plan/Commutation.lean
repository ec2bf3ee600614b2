import SuiteTidy.Check.Plan
import SuiteTidy.Proofs.Lists
import SuiteTidy.Proofs.Plan.Execution
import Mathlib.Data.List.Perm.Basic

/-!
Plans without conflicts can be executed in any order. A plan whose files lie in directories that are
there does the same in every tree with the same directories: it comes out the same, and it puts the
same files into the tree. Two plans without a common target put files at different places, so
neither sees nor undoes what the other does.
-/

set_option autoImplicit false
set_option relaxedAutoImplicit false

namespace SuiteTidy.Plan

/-- Every file that a plan creates is named by a path from the top without double dots, and lies in
a directory that is there. -/
def Placed (t : FileTree) (p : Plan) : Prop :=
  ∀ o, some o ∈ p.operations → o.action = "create" → ∀ r, o.target = some r →
    ∃ path, r = .path path ∧ path.absolute = false ∧ ".." ∉ path.parts ∧
      t.isDir path.parent = .ok true

/-- The places of the files that a plan names by paths from the top. -/
def Names (p : Plan) (place : Place) : Prop :=
  ∃ o path, some o ∈ p.operations ∧ o.target = some (.path path) ∧ path.absolute = false ∧
    path.parts = place

def Independent (p q : Plan) : Prop :=
  ∀ o o', some o ∈ p.operations → some o' ∈ q.operations → o.target ≠ o'.target

theorem Independent.symm {p q : Plan} (h : p.Independent q) : q.Independent p :=
  fun o o' ho ho' heq => h o' o ho' ho heq.symm

theorem Independent.apart {p q : Plan} (h : p.Independent q) (place : Place)
    (hp : p.Names place) : ¬ q.Names place := by
  rintro ⟨o', path', ho', htarget', hrel', rfl⟩
  obtain ⟨o, path, ho, htarget, hrel, hparts⟩ := hp
  have hpath : path = path' := by
    cases path
    cases path'
    simp_all
  exact h o o' ho ho' (by rw [htarget, htarget', hpath])

end SuiteTidy.Plan

namespace SuiteTidy.PlanCheck

/-! Plans without conflicts have no targets in common. -/

private theorem target_mem_targets {p : Plan} {xs : List (Option FileRef)}
    (h : targets p = .ok xs) {o : Operation} (ho : some o ∈ p.operations) : o.target ∈ xs := by
  obtain ⟨r, hr, htarget⟩ := Lists.exists_of_mapM_eq_ok h ho
  rw [← Except.ok.inj htarget] at hr
  exact hr

private theorem not_mem_of_sharedTargets_eq_nil {xs ys : List (Option FileRef)}
    (h : sharedTargets xs ys = []) {r : Option FileRef} (hx : r ∈ xs) : r ∉ ys := by
  intro hy
  have hshared : r ∈ (xs.filter ys.contains).eraseDups := by
    rw [List.mem_eraseDups, List.mem_filter]
    exact ⟨hx, by simpa using hy⟩
  have hshown : (Datum.ofOption FileRef.toDatum r).shown ∈ sharedTargets xs ys := by
    rw [sharedTargets, List.mem_mergeSort]
    exact List.mem_map_of_mem hshared
  simp [h] at hshown

private theorem conflictsOf_ne_nil {p q : Plan} (h : p.source = q.source) :
    conflictsOf p q ≠ .ok [] := by
  simp only [conflictsOf, if_pos h, bind, Except.bind, pure, Except.pure]
  cases FileRef.asPath "name" p.source with
  | error f => simp
  | ok file => cases targets p <;> cases targets q <;> simp

private theorem independent_of_conflictsOf {p q : Plan} (h : conflictsOf p q = .ok []) :
    p.Independent q := by
  have hsource : p.source ≠ q.source := fun heq => conflictsOf_ne_nil heq h
  simp only [conflictsOf, if_neg hsource, bind, Except.bind, pure, Except.pure] at h
  intro o o' ho ho' heq
  cases hp : targets p with
  | error f => simp [hp] at h
  | ok xs =>
    cases hq : targets q with
    | error f => simp [hp, hq] at h
    | ok ys =>
      have hnone : sharedTargets xs ys = [] := by simpa [hp, hq] using h
      exact not_mem_of_sharedTargets_eq_nil hnone (target_mem_targets hp ho)
        (heq ▸ target_mem_targets hq ho')

private theorem pairwise_independent {ps : List Plan} (h : conflicts ps = .ok []) :
    ps.Pairwise Plan.Independent := by
  induction ps with
  | nil => exact .nil
  | cons p ps ih =>
    rw [conflicts] at h
    cases hhere : ps.mapM (conflictsOf p) with
    | error f => simp [hhere, bind, Except.bind] at h
    | ok here =>
      cases hothers : conflicts ps with
      | error f => simp [hhere, hothers, bind, Except.bind] at h
      | ok others =>
        simp only [hhere, hothers, bind, Except.bind, pure, Except.pure, Except.ok.injEq,
          List.append_eq_nil_iff, List.flatten_eq_nil_iff] at h
        refine .cons (fun q hq => ?_) (ih (by rw [hothers, h.2]))
        obtain ⟨found, hfound, hconflicts⟩ := Lists.exists_of_mapM_eq_ok hhere hq
        rw [h.1 found hfound] at hconflicts
        exact independent_of_conflictsOf hconflicts

end SuiteTidy.PlanCheck

namespace SuiteTidy.FileTree

/-- A step that does the same in all trees with the directories of one: it has one result, and puts
the same files at places of a kind where no directory is. -/
def PutsFiles {α : Type} (t : FileTree) (allowed : Place → Prop)
    (step : FileTree → α × FileTree) : Prop :=
  ∃ (a : α) (files : List (Place × Content)),
    (∀ f ∈ files, allowed f.1 ∧ t.lookup f.1 ≠ some .directory) ∧
    ∀ t', SameDirectories t t' → step t' = (a, t'.putFiles files)

variable {α β : Type} {t : FileTree} {allowed : Place → Prop}

theorem PutsFiles.pure (a : α) : PutsFiles t allowed fun t' => (a, t') :=
  ⟨a, [], by simp, fun _ _ => rfl⟩

theorem PutsFiles.map {step : FileTree → α × FileTree} (h : PutsFiles t allowed step)
    (f : α → β) : PutsFiles t allowed fun t' => (f (step t').1, (step t').2) := by
  obtain ⟨a, files, hfiles, hstep⟩ := h
  refine ⟨f a, files, hfiles, fun t' ht' => ?_⟩
  show (f (step t').1, (step t').2) = (f a, t'.putFiles files)
  rw [hstep t' ht']

theorem PutsFiles.bind {step : FileTree → α × FileTree} {next : α → FileTree → β × FileTree}
    (h : PutsFiles t allowed step) (hnext : ∀ a, PutsFiles t allowed (next a)) :
    PutsFiles t allowed fun t' => next (step t').1 (step t').2 := by
  obtain ⟨a, files, hfiles, hstep⟩ := h
  obtain ⟨b, others, hothers, hlast⟩ := hnext a
  refine ⟨b, files ++ others, ?_, fun t' ht' => ?_⟩
  · intro f hf
    rcases List.mem_append.mp hf with hf | hf
    · exact hfiles f hf
    · exact hothers f hf
  · have hkept : SameDirectories t' (t'.putFiles files) :=
      sameDirectories_putFiles fun f hf => ht'.lookup_ne (hfiles f hf).2
    show next (step t').1 (step t').2 = (b, t'.putFiles (files ++ others))
    rw [hstep t' ht', hlast _ (ht'.trans hkept), putFiles_append]

theorem PutsFiles.result {step : FileTree → α × FileTree} (h : PutsFiles t allowed step)
    {t' : FileTree} (ht' : SameDirectories t t') :
    (step t').1 = (step t).1 ∧ SameDirectories t (step t').2 := by
  obtain ⟨a, files, hfiles, hstep⟩ := h
  rw [hstep t' ht', hstep t (SameDirectories.refl t)]
  exact ⟨rfl, ht'.trans (sameDirectories_putFiles fun f hf => ht'.lookup_ne (hfiles f hf).2)⟩

/-- Steps that put files at different places can be taken in either order. -/
private theorem PutsFiles.comm {other : Place → Prop} {step : FileTree → α × FileTree}
    {step' : FileTree → β × FileTree} (h : PutsFiles t allowed step)
    (h' : PutsFiles t other step') (hapart : ∀ place, allowed place → ¬ other place)
    {t' : FileTree} (ht' : SameDirectories t t') :
    (step' (step t').2).2 = (step (step' t').2).2 := by
  have hkept := (h.result ht').2
  have hkept' := (h'.result ht').2
  obtain ⟨a, files, hfiles, hstep⟩ := h
  obtain ⟨b, others, hothers, hstep'⟩ := h'
  rw [hstep' _ hkept, hstep _ hkept', hstep t' ht', hstep' t' ht']
  refine putFiles_comm t' fun f hf g hg heq => ?_
  exact hapart f.1 (hfiles f hf).1 (heq ▸ (hothers g hg).1)

end SuiteTidy.FileTree

namespace SuiteTidy.Execution

open SuiteTidy.FileTree

/-! What a plan does. -/

section Steps

variable {t : FileTree} {allowed : Place → Prop} (hasGenerator : Bool) (now : Moment)

/-- The file of an operation, if it is to be created, is named by a path from the top without double
dots, lies in a directory that is there, and has a place of the allowed kind. -/
private def PlacedAt (t : FileTree) (allowed : Place → Prop) (o : Operation) : Prop :=
  o.action = "create" → ∀ r, o.target = some r →
    ∃ path, r = .path path ∧ path.absolute = false ∧ ".." ∉ path.parts ∧
      t.isDir path.parent = .ok true ∧ allowed path.parts

private theorem putsFiles_written {path : Path} (hrel : path.absolute = false)
    (hdots : ".." ∉ path.parts) (hdir : t.isDir path.parent = .ok true)
    (hallowed : allowed path.parts) (content : String) :
    PutsFiles t allowed (SafeFile.written (some (.path path)) content) := by
  by_cases h : t.Accepts path
  · refine ⟨true, [(path.parts, .bytes content.toUTF8)], ?_, fun t' ht' => ?_⟩
    · intro f hf
      rw [List.mem_singleton.mp hf]
      exact ⟨hallowed, h.2⟩
    · exact SafeFile.written_of_accepts hrel hdots (isDir_of_keepsDirectories ht'.1 hdir)
        ((accepts_congr ht' hdir).mpr h) content
  · refine ⟨false, [], by simp, fun t' ht' => ?_⟩
    exact SafeFile.written_of_not_accepts hrel hdots (isDir_of_keepsDirectories ht'.1 hdir)
      (mt (accepts_congr ht' hdir).mp h) content

private theorem putsFiles_performOn (p : Plan) {o : Operation} (ho : PlacedAt t allowed o) :
    PutsFiles t allowed (performOn hasGenerator now p o) := by
  unfold performOn
  split_ifs with hcreate
  · cases hasGenerator with
    | false => exact PutsFiles.pure (p, false)
    | true =>
      have hwritten : PutsFiles t allowed (SafeFile.written o.target (contentFor now p o)) := by
        cases htarget : o.target with
        | none => exact PutsFiles.pure false
        | some r =>
          obtain ⟨path, rfl, hrel, hdots, hdir, hallowed⟩ := ho hcreate r htarget
          exact putsFiles_written hrel hdots hdir hallowed _
      exact hwritten.map fun done => (if done then noteCreated p o else p, done)
  · exact PutsFiles.pure (p, false)

private theorem putsFiles_performAllOn (p : Plan) (created : Nat) {os : List (Option Operation)}
    (hos : ∀ o, some o ∈ os → PlacedAt t allowed o) :
    PutsFiles t allowed (performAllOn hasGenerator now p created os) := by
  induction os generalizing p created with
  | nil => exact PutsFiles.pure _
  | cons o os ih =>
    cases o with
    | none => exact PutsFiles.pure _
    | some o =>
      have hfirst := putsFiles_performOn hasGenerator now p (hos o (by simp))
      exact hfirst.bind fun done => ih done.1 (if done.2 then created + 1 else created)
        fun o' ho' => hos o' (by simp [ho'])

private theorem putsFiles_executePlanOn {p : Plan}
    (hp : ∀ o, some o ∈ p.operations → PlacedAt t allowed o) :
    PutsFiles t allowed (executePlanOn hasGenerator now p) := by
  cases hexec : p.isExecutable with
  | false =>
    have hskip : executePlanOn hasGenerator now p = fun t' => ((p, .skipped), t') := by
      funext t'
      simp [executePlanOn, hexec]
    rw [hskip]
    exact PutsFiles.pure _
  | true =>
    have hrun : executePlanOn hasGenerator now p = fun t' =>
        let done := performAllOn hasGenerator now (p.markExecuting now) 0 p.operations t'
        (ended done.1.1 done.1.2, done.2) := by
      funext t'
      rw [executePlanOn, if_pos hexec]
    rw [hrun]
    exact (putsFiles_performAllOn hasGenerator now (p.markExecuting now) 0 hp).map fun r =>
      ended r.1 r.2

private theorem putsFiles_of_placed {p : Plan} (hp : p.Placed t) :
    PutsFiles t p.Names (executePlanOn hasGenerator now p) := by
  refine putsFiles_executePlanOn hasGenerator now fun o ho hcreate r hr => ?_
  obtain ⟨path, rfl, hrel, hdots, hdir⟩ := hp o ho hcreate r hr
  exact ⟨path, rfl, hrel, hdots, hdir, o, path, ho, hr, hrel, rfl⟩

private theorem executePlansOn_results {ps : List Plan} (hps : ∀ p ∈ ps, p.Placed t) {t' : FileTree}
    (ht' : SameDirectories t t') :
    (executePlansOn hasGenerator now ps t').1 =
      ps.map fun p => (executePlanOn hasGenerator now p t).1 := by
  induction ps generalizing t' with
  | nil => rfl
  | cons p ps ih =>
    rw [List.forall_mem_cons] at hps
    obtain ⟨hresult, hkept⟩ := (putsFiles_of_placed hasGenerator now hps.1).result ht'
    rw [executePlansOn, List.map_cons, ih hps.2 hkept, hresult]

private theorem executePlansOn_files_of_perm {ps qs : List Plan} (hperm : ps.Perm qs)
    (hps : ∀ p ∈ ps, p.Placed t) (hapart : ps.Pairwise Plan.Independent) {t' : FileTree}
    (ht' : SameDirectories t t') :
    (executePlansOn hasGenerator now ps t').2 = (executePlansOn hasGenerator now qs t').2 := by
  induction hperm generalizing t' with
  | nil => rfl
  | cons p _ ih =>
    rw [List.forall_mem_cons] at hps
    rw [List.pairwise_cons] at hapart
    obtain ⟨-, hkept⟩ := (putsFiles_of_placed hasGenerator now hps.1).result ht'
    exact ih hps.2 hapart.2 hkept
  | swap q p ps =>
    simp only [List.forall_mem_cons] at hps
    simp only [List.pairwise_cons, List.forall_mem_cons] at hapart
    obtain ⟨hp, hq, -⟩ := hps
    have hswap := (putsFiles_of_placed hasGenerator now hp).comm
      (putsFiles_of_placed hasGenerator now hq) hapart.1.1.apart ht'
    simp only [executePlansOn, hswap]
  | trans hfirst _ ih ih' =>
    have hmid := fun p hp => hps p (hfirst.mem_iff.mpr hp)
    have hmidApart := (hfirst.pairwise_iff Plan.Independent.symm).mp hapart
    exact (ih hps hapart ht').trans (ih' hmid hmidApart ht')

end Steps

private theorem tally_of_perm (now : Moment) {outcomes others : List Outcome}
    (h : outcomes.Perm others) : Tally.of now outcomes = Tally.of now others := by
  have hsum : (outcomes.map Outcome.created).foldr (· + ·) 0 =
      (others.map Outcome.created).foldr (· + ·) 0 := (h.map Outcome.created).sum_nat
  simp only [Tally.of, h.length_eq, h.countP_eq, hsum]

/-- Plans without conflicts whose files lie in directories that are there can be executed in any
order: the files, the plans and the counts come out the same. -/
theorem executeAll_perm (hasGenerator : Bool) {ps qs : List Plan} (hperm : ps.Perm qs)
    (w : Workspace) (hfree : PlanCheck.conflicts ps = .ok [])
    (hplaced : ∀ p ∈ ps, p.Placed w.files) :
    ∃ rs rs' tally v v',
      executeAll hasGenerator ps w = (.ok (rs, tally), v) ∧
      executeAll hasGenerator qs w = (.ok (rs', tally), v') ∧
      v.files = v'.files ∧ rs.length = ps.length ∧ rs'.length = qs.length ∧
      (ps.zip rs).Perm (qs.zip rs') := by
  obtain ⟨words, hrun⟩ := executeAll_eq hasGenerator ps w
  obtain ⟨words', hrun'⟩ := executeAll_eq hasGenerator qs w
  have hplaced' : ∀ q ∈ qs, q.Placed w.files := fun q hq => hplaced q (hperm.mem_iff.mpr hq)
  have hfiles := executePlansOn_files_of_perm hasGenerator w.now hperm hplaced
    (PlanCheck.pairwise_independent hfree) (SameDirectories.refl w.files)
  rw [executePlansOn_results hasGenerator w.now hplaced (SameDirectories.refl w.files),
    List.map_map, List.map_map] at hrun
  rw [executePlansOn_results hasGenerator w.now hplaced' (SameDirectories.refl w.files),
    List.map_map, List.map_map, ← tally_of_perm w.now (hperm.map _)] at hrun'
  refine ⟨_, _, _, _, _, hrun, hrun', hfiles, by simp, by simp, ?_⟩
  rw [← List.map_prod_left_eq_zip, ← List.map_prod_left_eq_zip]
  exact hperm.map _

def creation (source : String) (target : Place) : Plan :=
  { id := source, source := some (.path { parts := [source] }), action := .splitByConcern,
    reason := "Split", description := "",
    operations := [some { action := "create", target := some (.path { parts := target }) }],
    confidence := .int 1, status := .ready, createdAt := { micros := 0 } }

private theorem placed_creation {source : String} {target : Place} {t : FileTree}
    (hdots : ".." ∉ target) (hdir : t.isDir { parts := target.dropLast } = .ok true) :
    (creation source target).Placed t := by
  intro o ho _ r hr
  obtain rfl : o = { action := "create", target := some (.path { parts := target }) } := by
    simpa [creation] using ho
  exact ⟨{ parts := target }, (Option.some.inj hr).symm, rfl, hdots, hdir⟩

def oneDirectory : Workspace :=
  { files := { entries := [(["src"], .directory)] }, now := { micros := 0 } }

theorem executeAll_perm_creations :
    let ps := [creation "a.spec.ts" ["src", "a.ts"], creation "b.spec.ts" ["src"]]
    PlanCheck.conflicts ps = .ok [] ∧ (∀ p ∈ ps, p.Placed oneDirectory.files) ∧
    ∃ rs rs' tally v v',
      executeAll true ps oneDirectory = (.ok (rs, tally), v) ∧
      executeAll true ps.reverse oneDirectory = (.ok (rs', tally), v') ∧
      v.files = v'.files ∧ rs.length = ps.length ∧ rs'.length = ps.reverse.length ∧
      (ps.zip rs).Perm (ps.reverse.zip rs') := by
  intro ps
  have hfree : PlanCheck.conflicts ps = .ok [] := by cbv
  have hplaced : ∀ p ∈ ps, p.Placed oneDirectory.files := by
    intro p hp
    simp only [ps, List.mem_cons, List.not_mem_nil, or_false] at hp
    rcases hp with rfl | rfl
    · exact placed_creation (by decide) rfl
    · exact placed_creation (by decide) rfl
  have hperm : ps.Perm ps.reverse := (List.reverse_perm ps).symm
  exact ⟨hfree, hplaced, executeAll_perm true hperm oneDirectory hfree hplaced⟩

end SuiteTidy.Execution
