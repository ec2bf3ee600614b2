import SuiteTidy.Check.Plan
import SuiteTidy.Proofs.Number.Order
import SuiteTidy.Proofs.Plan.Execution

/-!
What the rules for plans accept. A plan is accepted exactly if its texts, source, operations,
confidence and status are in order, and otherwise a rule is named that it breaks. The only other
fault is a source with a name that is too long to be looked for, and it ends the check of a whole
list. Main statement: these cases, and that no accepted plan fails when it is executed.
-/

set_option autoImplicit false
set_option relaxedAutoImplicit false

namespace SuiteTidy.FileTree

private theorem follow_eq_nameTooLong {t : FileTree} {p q : Path} {here : Place}
    {names : List String} (h : t.follow p here names = .error (.nameTooLong q)) :
    q = p ∧ ∃ name ∈ names, nameLimit < name.utf8ByteSize := by
  induction names generalizing here with
  | nil => cases h
  | cons name rest ih =>
    -- A fault further down the path is one of the names that are left.
    have hrest {place : Place} (hr : t.follow p place rest = .error (.nameTooLong q)) :
        q = p ∧ ∃ name' ∈ name :: rest, nameLimit < name'.utf8ByteSize := by
      obtain ⟨rfl, name', hname, hlong⟩ := ih hr
      exact ⟨rfl, name', List.mem_cons_of_mem _ hname, hlong⟩
    rw [follow] at h
    split at h
    · cases h
    · cases h
    · split_ifs at h with hdots hlong
      · exact hrest h
      · obtain rfl : p = q := by simpa using h
        exact ⟨rfl, name, List.mem_cons_self, hlong⟩
      · exact hrest h

private theorem exists_eq_error {t : FileTree} {p : Path} {f : FileFault}
    (h : t.exists_ p = .error f) :
    f = .nameTooLong p ∧ ∃ name ∈ p.parts, nameLimit < name.utf8ByteSize := by
  obtain ⟨q, rfl, hentry⟩ : ∃ q, f = .nameTooLong q ∧ t.entry p = .error (.nameTooLong q) := by
    unfold exists_ status at h
    split at h
    · cases h
    · rename_i q hentry
      obtain rfl : FileFault.nameTooLong q = f := Except.error.inj h
      exact ⟨q, rfl, hentry⟩
    · cases h
  have hlocate : t.locate p = .error (.nameTooLong q) := by
    unfold entry at hentry
    cases hplace : t.locate p with
    | error g => simpa [hplace, bind, Except.bind] using hentry
    | ok place =>
      simp only [hplace, bind, Except.bind] at hentry
      split at hentry <;> cases hentry
  unfold locate at hlocate
  split at hlocate
  · cases hlocate
  · obtain ⟨rfl, hname⟩ := follow_eq_nameTooLong hlocate
    exact ⟨rfl, hname⟩

private theorem exists_of_overlong {t : FileTree} {name : String}
    (hlong : nameLimit < name.utf8ByteSize) (hnull : '\x00' ∉ name.toList) :
    t.exists_ { parts := [name] } = .error (.nameTooLong { parts := [name] }) := by
  have hdots : name ≠ ".." := by
    rintro rfl
    exact absurd hlong (by decide)
  have htop : t.lookup [] = some .directory := rfl
  have hlocate : t.locate { parts := [name] } = .error (.nameTooLong { parts := [name] }) := by
    simp [locate, hnull, follow, htop, hdots, hlong]
  have hentry : t.entry { parts := [name] } = .error (.nameTooLong { parts := [name] }) := by
    rw [entry, hlocate]
    rfl
  rw [exists_, status, hentry]
  rfl

end SuiteTidy.FileTree

namespace SuiteTidy.PlanCheck

def OperationAcceptable (o : Operation) : Prop :=
  o.action ∈ ["create", "modify", "delete"] ∧ ∃ ref, o.target = some ref ∧ ref ≠ .plain ""

structure Acceptable (t : FileTree) (p : Plan) : Prop where
  id_given : p.id ≠ ""
  description_given : p.description ≠ ""
  reason_given : p.reason ≠ ""
  source_exists : ∃ file, p.source = some (.path file) ∧ t.exists_ file = .ok true
  operations_given : 1 ≤ p.operations.length
  operations_few : p.operations.length ≤ 50
  operation : ∀ o ∈ p.operations, ∃ o', o = some o' ∧ OperationAcceptable o'
  confidence_enough : Number.atMost (.real 0.3) p.confidence
  confidence_atMost_one : Number.atMost p.confidence (.int 1)
  status_open : p.status = .draft ∨ p.status = .ready

/-- A source that cannot be looked for because a name on the way to it is too long. -/
def Unsearchable (t : FileTree) (p : Plan) (file : Path) : Prop :=
  p.id ≠ "" ∧ p.description ≠ "" ∧ p.reason ≠ "" ∧ p.source = some (.path file) ∧
    t.exists_ file = .error (.nameTooLong file)

/-- A check that passes or names a rule that is broken. -/
def Ruled (r : Except Fault Unit) : Prop :=
  r = .ok () ∨ ∃ rule details, r = .error (.invalid rule details)

private theorem ruled_ok : Ruled (.ok ()) := .inl rfl

private theorem ruled_broken (rule : String) (p : Plan) (more : List (String × Datum)) :
    Ruled (broken rule p more) := .inr ⟨rule, _, rfl⟩

theorem Ruled.andThen {r s : Except Fault Unit} (hr : Ruled r) (hs : Ruled s) :
    Ruled (r >>= fun _ => s) := by
  rcases hr with rfl | ⟨rule, details, rfl⟩
  · exact hs
  · exact .inr ⟨rule, details, rfl⟩

private theorem andThen_eq_ok_iff {r s : Except Fault Unit} :
    (r >>= fun _ => s) = .ok () ↔ r = .ok () ∧ s = .ok () := by
  cases r with
  | ok u => simp [bind, Except.bind]
  | error f => simp [bind, Except.bind]

/-! The rules one after another. -/

theorem texts_eq_ok_iff (p : Plan) :
    texts p = .ok () ↔ p.id ≠ "" ∧ p.description ≠ "" ∧ p.reason ≠ "" := by
  unfold texts broken
  split_ifs <;> simp_all

private theorem ruled_texts (p : Plan) : Ruled (texts p) := by
  unfold texts
  split_ifs
  · exact .inr ⟨_, _, rfl⟩
  · exact ruled_broken _ _ _
  · exact ruled_broken _ _ _
  · exact ruled_ok

private theorem source_of_path {p : Plan} {file : Path} (h : p.source = some (.path file))
    (t : FileTree) :
    source t p = (t.exists_ file).mapError .file >>= fun found =>
      if found then .ok ()
      else broken "Source file does not exist" p [("path", .text file.text)] := by
  unfold source
  rw [h]
  rfl

private theorem source_of_not_path {p : Plan} (h : ∀ file, p.source ≠ some (.path file))
    (t : FileTree) : ∃ rule details, source t p = .error (.invalid rule details) := by
  unfold source
  cases hsource : p.source with
  | none => exact ⟨_, _, rfl⟩
  | some ref =>
    cases ref with
    | path file => exact absurd hsource (h file)
    | plain s =>
      dsimp only
      split_ifs
      · exact ⟨_, _, rfl⟩
      · exact ⟨_, _, rfl⟩

theorem source_eq_ok_iff (t : FileTree) (p : Plan) :
    source t p = .ok () ↔ ∃ file, p.source = some (.path file) ∧ t.exists_ file = .ok true := by
  by_cases hpath : ∃ file, p.source = some (.path file)
  · obtain ⟨file, hfile⟩ := hpath
    rw [source_of_path hfile, hfile]
    cases hexists : t.exists_ file with
    | error f => simp [Except.mapError, bind, Except.bind, hexists]
    | ok found => cases found <;> simp [Except.mapError, bind, Except.bind, broken, hexists]
  · have hnone : ∀ file, p.source ≠ some (.path file) := fun file hfile => hpath ⟨file, hfile⟩
    obtain ⟨rule, details, hbroken⟩ := source_of_not_path hnone t
    simp [hbroken, hnone]

private theorem ruled_source {t : FileTree} {p : Plan}
    (h : ∀ file, p.source = some (.path file) → t.exists_ file ≠ .error (.nameTooLong file)) :
    Ruled (source t p) := by
  by_cases hpath : ∃ file, p.source = some (.path file)
  · obtain ⟨file, hfile⟩ := hpath
    rw [source_of_path hfile]
    cases hexists : t.exists_ file with
    | error f =>
      obtain ⟨rfl, -⟩ := FileTree.exists_eq_error hexists
      exact absurd hexists (h file hfile)
    | ok found =>
      cases found with
      | false => exact ruled_broken _ _ _
      | true => exact ruled_ok
  · exact .inr (source_of_not_path (fun file hfile => hpath ⟨file, hfile⟩) t)

private theorem isGiven_iff (target : Option FileRef) :
    target.any FileRef.isGiven = true ↔ ∃ ref, target = some ref ∧ ref ≠ .plain "" := by
  cases target with
  | none => simp
  | some ref => cases ref <;> simp [FileRef.isGiven]

private theorem operation_eq_ok_iff (p : Plan) (index : Nat) (o : Option Operation) :
    operation p index o = .ok () ↔ ∃ o', o = some o' ∧ OperationAcceptable o' := by
  cases o with
  | none => simp [operation]
  | some o =>
    have hempty : "" ∉ actions := by decide
    have hactions : ["create", "modify", "delete"] = actions := rfl
    simp only [operation, OperationAcceptable, Option.some.injEq, exists_eq_left', ← isGiven_iff,
      hactions]
    split_ifs <;> simp_all [broken]

private theorem ruled_operation (p : Plan) (index : Nat) (o : Operation) :
    Ruled (operation p index (some o)) := by
  unfold operation
  dsimp only
  split_ifs
  · exact ruled_broken _ _ _
  · exact ruled_broken _ _ _
  · exact ruled_broken _ _ _
  · exact ruled_ok

private theorem operationsFrom_eq_ok_iff (p : Plan) (index : Nat) (os : List (Option Operation)) :
    operationsFrom p index os = .ok () ↔ ∀ o ∈ os, ∃ o', o = some o' ∧ OperationAcceptable o' := by
  induction os generalizing index with
  | nil => simp [operationsFrom]
  | cons o os ih =>
    rw [operationsFrom, andThen_eq_ok_iff, operation_eq_ok_iff, ih, List.forall_mem_cons]

private theorem ruled_operationsFrom (p : Plan) (index : Nat) {os : List (Option Operation)}
    (h : none ∉ os) : Ruled (operationsFrom p index os) := by
  induction os generalizing index with
  | nil => exact ruled_ok
  | cons o os ih =>
    cases o with
    | none => simp at h
    | some o =>
      exact (ruled_operation p index o).andThen (ih _ fun hnone => h (List.mem_cons_of_mem _ hnone))

private theorem operations_eq_ok_iff (p : Plan) :
    operations p = .ok () ↔ 1 ≤ p.operations.length ∧ p.operations.length ≤ 50 ∧
      ∀ o ∈ p.operations, ∃ o', o = some o' ∧ OperationAcceptable o' := by
  unfold operations operationLimit
  split_ifs with hempty hmany
  · simp_all [broken]
  · simp only [broken, reduceCtorEq, false_iff]
    omega
  · have hsome : 1 ≤ p.operations.length := by simpa [Nat.one_le_iff_ne_zero] using hempty
    rw [operationsFrom_eq_ok_iff]
    simp [hsome, Nat.le_of_not_lt hmany]

private theorem ruled_operations {p : Plan} (h : none ∉ p.operations) : Ruled (operations p) := by
  unfold operations
  split_ifs
  · exact ruled_broken _ _ _
  · exact ruled_broken _ _ _
  · exact ruled_operationsFrom p 0 h

private theorem not_less_iff_of_fraction (c : Number) :
    ((Number.atMost (.int 0) c ∧ Number.atMost c (.int 1)) ∧ ¬ c.less (.real 0.3)) ↔
      Number.atMost (.real 0.3) c ∧ Number.atMost c (.int 1) := by
  have hbound : Number.atMost (.real 0.3) (.real 0.3) := by decide
  have hzero : Number.atMost (.int 0) (.real 0.3) := by decide
  constructor
  · rintro ⟨⟨-, hone⟩, hless⟩
    exact ⟨(Number.not_less_iff hbound (Number.atMost_self_of_atMost hone)).mp hless, hone⟩
  · rintro ⟨hmin, hone⟩
    exact ⟨⟨Number.atMost_trans hzero hmin, hone⟩,
      (Number.not_less_iff hbound (Number.atMost_self_of_atMost hone)).mpr hmin⟩

private theorem confidence_eq_ok_iff (p : Plan) :
    confidence p = .ok () ↔ Number.atMost (.real 0.3) p.confidence ∧
      Number.atMost p.confidence (.int 1) := by
  rw [← not_less_iff_of_fraction]
  unfold confidence
  cases Number.atMost (.int 0) p.confidence <;> cases Number.atMost p.confidence (.int 1) <;>
    cases p.confidence.less (.real 0.3) <;> simp [broken]

private theorem ruled_confidence (p : Plan) : Ruled (confidence p) := by
  unfold confidence
  dsimp only
  split_ifs
  · exact ruled_broken _ _ _
  · exact ruled_broken _ _ _
  · exact ruled_ok

private theorem status_eq_ok_iff (p : Plan) :
    status p = .ok () ↔ p.status = .draft ∨ p.status = .ready := by
  unfold status
  split_ifs with h
  · simp [h]
  · simp [broken, h]

private theorem ruled_status (p : Plan) : Ruled (status p) := by
  unfold status
  split_ifs
  · exact ruled_ok
  · exact ruled_broken _ _ _

/-! All rules together. -/

theorem plan_eq_ok_iff (t : FileTree) (p : Plan) : plan t p = .ok () ↔ Acceptable t p := by
  unfold plan
  simp only [andThen_eq_ok_iff, texts_eq_ok_iff, source_eq_ok_iff, operations_eq_ok_iff,
    confidence_eq_ok_iff, status_eq_ok_iff]
  constructor
  · rintro ⟨⟨hid, hdescription, hreason⟩, hsource, ⟨hgiven, hfew, hop⟩, ⟨hmin, hone⟩, hstatus⟩
    exact ⟨hid, hdescription, hreason, hsource, hgiven, hfew, hop, hmin, hone, hstatus⟩
  · rintro ⟨hid, hdescription, hreason, hsource, hgiven, hfew, hop, hmin, hone, hstatus⟩
    exact ⟨⟨hid, hdescription, hreason⟩, hsource, ⟨hgiven, hfew, hop⟩, ⟨hmin, hone⟩, hstatus⟩

instance (t : FileTree) (p : Plan) : Decidable (Acceptable t p) :=
  match h : plan t p with
  | .ok () => .isTrue ((plan_eq_ok_iff t p).mp h)
  | .error _ => .isFalse fun hp => by simp [(plan_eq_ok_iff t p).mpr hp] at h

private theorem ruled_plan {t : FileTree} {p : Plan} (hops : none ∉ p.operations)
    (hsource : ∀ file, ¬ Unsearchable t p file) : Ruled (plan t p) := by
  rcases ruled_texts p with htexts | ⟨rule, details, htexts⟩
  · have hgiven := (texts_eq_ok_iff p).mp htexts
    have hfound : Ruled (source t p) :=
      ruled_source fun file hfile hlong =>
        hsource file ⟨hgiven.1, hgiven.2.1, hgiven.2.2, hfile, hlong⟩
    exact (ruled_texts p).andThen (hfound.andThen ((ruled_operations hops).andThen
      ((ruled_confidence p).andThen (ruled_status p))))
  · exact .inr ⟨rule, details, by rw [plan, htexts]; rfl⟩

private theorem plan_of_unsearchable {t : FileTree} {p : Plan} {file : Path}
    (h : Unsearchable t p file) : plan t p = .error (.file (.nameTooLong file)) := by
  obtain ⟨hid, hdescription, hreason, hfile, hlong⟩ := h
  rw [plan, (texts_eq_ok_iff p).mpr ⟨hid, hdescription, hreason⟩, source_of_path hfile, hlong]
  rfl

private theorem batch_cons_of_ruled {t : FileTree} {p : Plan} (h : Ruled (plan t p))
    (ps : List Plan) :
    batch t (p :: ps) =
      (batch t ps).map fun accepted => if Acceptable t p then p :: accepted else accepted := by
  rcases h with hok | ⟨rule, details, herror⟩
  · have hp : Acceptable t p := (plan_eq_ok_iff t p).mp hok
    rw [batch, hok]
    cases batch t ps <;> simp [hp] <;> rfl
  · have hp : ¬ Acceptable t p := fun hp => by simp [(plan_eq_ok_iff t p).mpr hp] at herror
    rw [batch, herror]
    cases batch t ps <;> simp [hp] <;> rfl

private theorem batch_append {t : FileTree} {ps : List Plan} (hops : ∀ p ∈ ps, none ∉ p.operations)
    (hsource : ∀ p ∈ ps, ∀ file, ¬ Unsearchable t p file) (qs : List Plan) :
    batch t (ps ++ qs) = (batch t qs).map (ps.filter (Acceptable t ·) ++ ·) := by
  induction ps with
  | nil =>
    rw [List.nil_append]
    cases batch t qs <;> rfl
  | cons p ps ih =>
    rw [List.forall_mem_cons] at hops hsource
    rw [List.cons_append, batch_cons_of_ruled (ruled_plan hops.1 hsource.1), ih hops.2 hsource.2]
    by_cases hp : Acceptable t p <;> cases batch t qs <;> simp [hp, Except.map]

/-- Accepted plans never fail: those that are ready and sure enough are completed, and the others
stay as they are. -/
theorem Acceptable.settled {t : FileTree} {p : Plan} (hp : Acceptable t p)
    {r : Plan × Execution.Outcome} (hr : Execution.Settled p r) :
    (p.status = .ready ∧ Number.atMost (.real 0.5) p.confidence → r.1.status = .completed) ∧
      (¬ (p.status = .ready ∧ Number.atMost (.real 0.5) p.confidence) → r.1 = p) := by
  have hgiven : p.operations ≠ [] := List.length_pos_iff.mp hp.operations_given
  have hexec : p.Executable ↔ p.status = .ready ∧ Number.atMost (.real 0.5) p.confidence := by
    simp [Plan.Executable, hgiven]
  have hnone : none ∉ p.operations := fun hmem => by
    obtain ⟨o, ho, -⟩ := hp.operation none hmem
    cases ho
  rw [← hexec]
  cases hr with
  | skipped hnot => exact ⟨fun h => absurd h hnot, fun _ => rfl⟩
  | completed h _ hstatus _ => exact ⟨fun _ => hstatus, fun hnot => absurd h hnot⟩
  | failed _ hmem _ _ => exact absurd hmem hnone

/-- What the rules accept and refuse, for a plan and for a list of plans, and how accepted plans
come out of an execution. -/
theorem plan_decides (t : FileTree) :
    (∀ p : Plan, none ∉ p.operations →
      (plan t p = .ok () ↔ Acceptable t p) ∧
      (∀ file, Unsearchable t p file →
        plan t p = .error (.file (.nameTooLong file)) ∧
          ∃ name ∈ file.parts, 255 < name.utf8ByteSize) ∧
      (¬ Acceptable t p → (∀ file, ¬ Unsearchable t p file) →
        ∃ rule details, plan t p = .error (.invalid rule details))) ∧
    (∀ ps : List Plan, (∀ p ∈ ps, none ∉ p.operations) →
      (∀ p ∈ ps, ∀ file, ¬ Unsearchable t p file) →
        batch t ps = .ok (ps.filter (Acceptable t ·))) ∧
    (∀ (ps qs : List Plan) (p : Plan) (file : Path), (∀ q ∈ ps, none ∉ q.operations) →
      (∀ q ∈ ps, ∀ file, ¬ Unsearchable t q file) → Unsearchable t p file →
        batch t (ps ++ p :: qs) = .error (.file (.nameTooLong file))) ∧
    (∀ (hasGenerator : Bool) (ps : List Plan) (w : Workspace), ∃ qs tally w',
      Execution.executeAll hasGenerator ps w = (.ok (qs, tally), w') ∧
      List.Forall₂ (fun p q => Acceptable t p →
        (p.status = .ready ∧ Number.atMost (.real 0.5) p.confidence → q.status = .completed) ∧
        (¬ (p.status = .ready ∧ Number.atMost (.real 0.5) p.confidence) → q = p)) ps qs) := by
  refine ⟨fun p hops => ⟨plan_eq_ok_iff t p, fun file hfile => ?_, fun hnot hsource => ?_⟩,
    fun ps hops hsource => ?_, fun ps qs p file hops hsource hfile => ?_,
    fun hasGenerator ps w => ?_⟩
  · exact ⟨plan_of_unsearchable hfile, (FileTree.exists_eq_error hfile.2.2.2.2).2⟩
  · exact (ruled_plan hops hsource).resolve_left fun hok => hnot ((plan_eq_ok_iff t p).mp hok)
  · simpa [batch, Except.map] using batch_append hops hsource []
  · rw [batch_append hops hsource, batch, plan_of_unsearchable hfile]
    rfl
  · obtain ⟨words, hrun⟩ := Execution.executeAll_eq hasGenerator ps w
    refine ⟨_, _, _, hrun, ?_⟩
    rw [List.forall₂_map_right_iff]
    exact (Execution.settled_executePlansOn hasGenerator w.now ps w.files).imp
      fun p r hr hp => hp.settled hr

def overlongPath : Path := { parts := [String.ofList (List.replicate 256 'a')] }

/-- A plan that is in order but for the length of a name in its source. -/
def overlongSource : Plan :=
  { id := "plan_1", source := some (.path overlongPath), action := .splitByCategory,
    reason := "why", description := "what",
    operations := [some { action := "create", target := some (.path { parts := ["x.ts"] }) }],
    confidence := .real 0.9, createdAt := { micros := 0 } }

theorem plan_decides_overlongSource :
    Unsearchable {} overlongSource overlongPath ∧
      batch {} [overlongSource] = .error (.file (.nameTooLong overlongPath)) := by
  have hnull : '\x00' ∉ (String.ofList (List.replicate 256 'a')).toList := by
    rw [String.toList_ofList]
    intro hmem
    exact absurd (List.eq_of_mem_replicate hmem) (by decide)
  have hlong : Unsearchable {} overlongSource overlongPath :=
    ⟨by decide, by decide, by decide, rfl, FileTree.exists_of_overlong (by decide +kernel) hnull⟩
  exact ⟨hlong, (plan_decides {}).2.2.1 [] [] overlongSource overlongPath (by simp) (by simp) hlong⟩

end SuiteTidy.PlanCheck
