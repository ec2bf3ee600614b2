import SuiteTidy.Plan.Basic
import Mathlib.Data.List.Chain
import Mathlib.Data.List.Induction

/-!
How the outcome of a plan goes with its state. Calls change a plan one after another, and one that
breaks off leaves it as it was. Of what a call does to the state, the success and the message, only
the state that it puts the plan into matters. Main statement: the success and the message fit the
state exactly if no completion was overtaken by another state than a failure, and no failure or skip
by another state than these two.
-/

set_option autoImplicit false
set_option relaxedAutoImplicit false

namespace SuiteTidy.Plan

/-! Calls. -/

inductive Call where
  | addOperation (o : Option Operation)
  | estimateImpact
  | markReady
  | markExecuting (now : Moment)
  | markCompleted (created : List FileRef) (modified deleted : List Path)
  | markFailed (message : String)
  | markSkipped (reason : String)

def called (p : Plan) : Call → Except Fault Plan
  | .addOperation o => .ok (p.addOperation o)
  | .estimateImpact => p.estimateImpact
  | .markReady => p.markReady
  | .markExecuting now => .ok (p.markExecuting now)
  | .markCompleted created modified deleted => .ok (p.markCompleted created modified deleted)
  | .markFailed message => .ok (p.markFailed message)
  | .markSkipped reason => .ok (p.markSkipped reason)

def after (p : Plan) (c : Call) : Plan :=
  match p.called c with
  | .ok q => q
  | .error _ => p

def afterAll (p : Plan) (calls : List Call) : Plan := calls.foldl after p

/-- The state that a call puts a plan into, if it does. Only a plan with operations, none of which
is missing, gets ready. -/
def Call.mark? (p : Plan) : Call → Option PlanStatus
  | .addOperation _ => none
  | .estimateImpact => none
  | .markReady => if p.operations = [] ∨ none ∈ p.operations then none else some .ready
  | .markExecuting _ => some .executing
  | .markCompleted _ _ _ => some .completed
  | .markFailed _ => some .failed
  | .markSkipped _ => some .skipped

def marks (p : Plan) : List Call → List PlanStatus
  | [] => []
  | c :: calls => (c.mark? p).toList ++ (p.after c).marks calls

private theorem afterAll_concat (p : Plan) (calls : List Call) (c : Call) :
    p.afterAll (calls ++ [c]) = (p.afterAll calls).after c := by
  simp [afterAll]

private theorem marks_concat (p : Plan) (calls : List Call) (c : Call) :
    p.marks (calls ++ [c]) = p.marks calls ++ (c.mark? (p.afterAll calls)).toList := by
  induction calls generalizing p with
  | nil => simp [marks, afterAll]
  | cons first calls ih => simp [marks, ih, afterAll]

/-! Outcomes. -/

/-- A state that a plan enters with a message. -/
def Explained (s : PlanStatus) : Prop := s = .failed ∨ s = .skipped

instance (s : PlanStatus) : Decidable (Explained s) := inferInstanceAs (Decidable (_ ∨ _))

structure Outcome where
  status : PlanStatus
  success : Bool
  explained : Bool
deriving DecidableEq

def outcome (p : Plan) : Outcome :=
  { status := p.status, success := p.success, explained := p.errorMessage.isSome }

/-- The outcome after a plan was put into a state. Only completion and failure decide about success,
and a message is never taken back. -/
def Outcome.mark (o : Outcome) (s : PlanStatus) : Outcome where
  status := s
  success := if s = .completed then true else if s = .failed then false else o.success
  explained := o.explained || decide (Explained s)

private theorem estimateImpact_cases (p : Plan) :
    (none ∈ p.operations ∧ ∃ f, p.estimateImpact = .error f) ∨
      none ∉ p.operations ∧ ∃ q, p.estimateImpact = .ok q ∧ q.outcome = p.outcome := by
  have hall : (none ∈ p.operations ∧ ∃ f, p.operationsAll = .error f) ∨
      none ∉ p.operations ∧ ∃ os, p.operationsAll = .ok os := by
    unfold operationsAll
    induction p.operations with
    | nil => exact .inr ⟨by simp, [], rfl⟩
    | cons o rest ih =>
      cases o with
      | none => exact .inl ⟨by simp, _, rfl⟩
      | some o =>
        rcases ih with ⟨hmem, f, hf⟩ | ⟨hmem, os, hos⟩
        · exact .inl ⟨by simp [hmem], f, by simp [List.mapM_cons, hf, bind, Except.bind]⟩
        · refine .inr ⟨by simp [hmem], o :: os, ?_⟩
          simp [List.mapM_cons, hos, bind, Except.bind, pure, Except.pure]
  unfold estimateImpact
  rcases hall with ⟨hmem, f, hf⟩ | ⟨hmem, os, hos⟩
  · exact .inl ⟨hmem, f, by rw [hf]; rfl⟩
  · exact .inr ⟨hmem, { p with impact := some (impactOf os) }, by rw [hos]; rfl, rfl⟩

private theorem outcome_markReady (p : Plan) :
    (p.after .markReady).outcome =
      if p.operations = [] ∨ none ∈ p.operations then p.outcome else p.outcome.mark .ready := by
  unfold after called markReady
  by_cases hempty : p.operations = []
  · simp [hempty]
  · have hsome : p.operations.isEmpty = false := by simpa using hempty
    rcases estimateImpact_cases p with ⟨hmem, f, hf⟩ | ⟨hmem, q, hq, hsame⟩
    · simp [hsome, hmem, hf, bind, Except.bind]
    · have hmark : { q with status := .ready }.outcome = p.outcome.mark .ready := by
        rw [← hsame]
        simp [outcome, Outcome.mark, Explained]
      simpa [hempty, hsome, hmem, hq, bind, Except.bind, pure, Except.pure] using hmark

private theorem outcome_after (p : Plan) (c : Call) :
    (p.after c).outcome = (c.mark? p).elim p.outcome p.outcome.mark := by
  cases c with
  | addOperation o => rfl
  | estimateImpact =>
    unfold after called
    rcases estimateImpact_cases p with ⟨-, f, hf⟩ | ⟨-, q, hq, hsame⟩
    · rw [hf]
      rfl
    · rw [hq]
      exact hsame
  | markReady =>
    rw [outcome_markReady, Call.mark?]
    split_ifs <;> rfl
  | markExecuting now =>
    simp [after, called, markExecuting, Call.mark?, outcome, Outcome.mark, Explained]
  | markCompleted created modified deleted =>
    simp [after, called, markCompleted, Call.mark?, outcome, Outcome.mark, Explained]
  | markFailed message =>
    simp [after, called, markFailed, Call.mark?, outcome, Outcome.mark, Explained]
  | markSkipped reason =>
    simp [after, called, markSkipped, Call.mark?, outcome, Outcome.mark, Explained]

private theorem outcome_afterAll (p : Plan) (calls : List Call) :
    (p.afterAll calls).outcome = (p.marks calls).foldl Outcome.mark p.outcome := by
  induction calls using List.reverseRecOn with
  | nil => rfl
  | append_singleton calls c ih =>
    rw [afterAll_concat, outcome_after, marks_concat, List.foldl_append, ← ih]
    cases c.mark? (p.afterAll calls) <;> rfl

/-! Plans whose outcome fits their state. -/

/-- A plan that succeeded exactly if it is completed, and that has a message only if it failed or
was skipped. -/
structure Coherent (p : Plan) : Prop where
  success : p.success = true ↔ p.status = .completed
  message : p.errorMessage ≠ none → p.status = .failed ∨ p.status = .skipped

structure IsNew (p : Plan) : Prop where
  status : p.status = .draft
  success : p.success = false
  message : p.errorMessage = none

/-- The last of some states that decides about success. -/
def verdict? (ss : List PlanStatus) : Option PlanStatus :=
  (ss.filter fun s => decide (s = .completed ∨ s = .failed)).getLast?

/-- A state that may follow another: what a completion or a message says of a plan must not outlast
the state that it belongs to. -/
def Follows : PlanStatus → PlanStatus → Prop
  | .completed, s => s = .completed ∨ s = .failed
  | .failed, s => Explained s
  | .skipped, s => Explained s
  | _, _ => True

def Outcome.Fits (o : Outcome) : Prop :=
  (o.success = true ↔ o.status = .completed) ∧ (o.explained = true → Explained o.status)

private theorem coherent_iff_fits (p : Plan) : Coherent p ↔ p.outcome.Fits := by
  have hmessage : p.outcome.explained = true ↔ p.errorMessage ≠ none := Option.isSome_iff_ne_none
  rw [Outcome.Fits, hmessage]
  exact ⟨fun h => ⟨h.success, h.message⟩, fun h => ⟨h.1, h.2⟩⟩

theorem IsNew.outcome_eq {p : Plan} (h : p.IsNew) : p.outcome = ⟨.draft, false, false⟩ := by
  simp [outcome, h.status, h.success, h.message]

private theorem foldl_mark_draft (ss : List PlanStatus) :
    ss.foldl Outcome.mark ⟨.draft, false, false⟩ =
      ⟨ss.getLastD .draft, decide (verdict? ss = some .completed), ss.any (Explained ·)⟩ := by
  induction ss using List.reverseRecOn with
  | nil => rfl
  | append_singleton ss s ih =>
    rw [List.foldl_concat, ih]
    cases s <;> simp [Outcome.mark, verdict?, Explained, List.filter_append]

private theorem IsNew.outcome_afterAll {p : Plan} (h : p.IsNew) (calls : List Call) :
    (p.afterAll calls).outcome =
      ⟨(p.marks calls).getLastD .draft, decide (verdict? (p.marks calls) = some .completed),
        (p.marks calls).any (Explained ·)⟩ := by
  rw [Plan.outcome_afterAll, h.outcome_eq, foldl_mark_draft]

/-- A state comes with its message, so from an outcome that fits, exactly the states that may follow
lead to one that fits. -/
private theorem Outcome.Fits.mark_iff {o : Outcome} (h : o.Fits)
    (hexplained : Explained o.status → o.explained = true) (s : PlanStatus) :
    (o.mark s).Fits ↔ Follows o.status s := by
  obtain ⟨status, success, explained⟩ := o
  obtain ⟨hsuccess, hmessage⟩ := h
  cases status <;> cases s <;> simp_all [Outcome.Fits, Outcome.mark, Follows, Explained]

private theorem IsNew.explained_of_status {p : Plan} (h : p.IsNew) (calls : List Call)
    (hstatus : Explained (p.afterAll calls).outcome.status) :
    (p.afterAll calls).outcome.explained = true := by
  rw [h.outcome_afterAll] at hstatus ⊢
  dsimp only at hstatus ⊢
  rcases List.eq_nil_or_concat (p.marks calls) with hnil | ⟨ss, s, hconcat⟩
  · rw [hnil] at hstatus
    exact absurd hstatus (by decide)
  · simp only [hconcat, List.concat_eq_append, List.getLastD_concat] at hstatus
    simp [hconcat, hstatus]

private theorem IsNew.fits_prefixes_iff {p : Plan} (h : p.IsNew) (calls : List Call) :
    (∀ before, before <+: calls → (p.afterAll before).outcome.Fits) ↔
      (.draft :: p.marks calls).IsChain Follows := by
  induction calls using List.reverseRecOn with
  | nil =>
    have hstart : (p.afterAll []).outcome.Fits := by
      rw [h.outcome_afterAll]
      simp [Outcome.Fits, marks, verdict?]
    simpa [marks] using hstart
  | append_singleton calls c ih =>
    have hsplit : (∀ before, before <+: calls ++ [c] → (p.afterAll before).outcome.Fits) ↔
        (∀ before, before <+: calls → (p.afterAll before).outcome.Fits) ∧
          (p.afterAll (calls ++ [c])).outcome.Fits := by
      simp only [List.prefix_concat_iff, or_imp, forall_and, forall_eq]
      exact and_comm
    rw [hsplit, ih, marks_concat, ← List.cons_append, List.isChain_append]
    refine and_congr_right fun hchain => ?_
    have hfits := ih.mpr hchain calls (List.prefix_refl calls)
    rw [afterAll_concat, outcome_after]
    cases c.mark? (p.afterAll calls) with
    | none => simpa using hfits
    | some s =>
      have hlast : (p.afterAll calls).outcome.status = (p.marks calls).getLastD .draft := by
        rw [h.outcome_afterAll]
      have hstep := hfits.mark_iff (h.explained_of_status calls) s
      rw [hlast] at hstep
      simpa [List.getLast?_cons] using hstep

private theorem fits_draft_iff (ss : List PlanStatus) :
    Outcome.Fits
        ⟨ss.getLastD .draft, decide (verdict? ss = some .completed), ss.any (Explained ·)⟩ ↔
      (verdict? ss = some .completed → ss.getLast? = some .completed) ∧
        ((∃ s ∈ ss, Explained s) → ∃ s ∈ ss.getLast?, Explained s) := by
  rcases List.eq_nil_or_concat ss with rfl | ⟨front, s, rfl⟩
  · simp [Outcome.Fits, verdict?]
  · -- A completion at the end is itself the last state that decides.
    have hlast : s = .completed → verdict? (front ++ [s]) = some .completed := by
      rintro rfl
      simp [verdict?]
    have hsuccess : (verdict? (front ++ [s]) = some .completed ↔ s = .completed) ↔
        (verdict? (front ++ [s]) = some .completed → s = .completed) :=
      ⟨Iff.mp, fun hv => ⟨hv, hlast⟩⟩
    simp [Outcome.Fits, hsuccess]

/-- The success and the message of a plan fit its state exactly if the last completion or failure is
a failure or the state is that completion, and a failure or skip is followed by such states only.
All the states on the way fit exactly if each may follow the one before it. -/
theorem afterAll_coherent_iff {p : Plan} (h : p.IsNew) (calls : List Call) :
    (Coherent (p.afterAll calls) ↔
      (verdict? (p.marks calls) = some .completed → (p.marks calls).getLast? = some .completed) ∧
        ((∃ s ∈ p.marks calls, Explained s) → ∃ s ∈ (p.marks calls).getLast?, Explained s)) ∧
      ((∀ before, before <+: calls → Coherent (p.afterAll before)) ↔
        (.draft :: p.marks calls).IsChain Follows) := by
  constructor
  · rw [coherent_iff_fits, h.outcome_afterAll]
    exact fits_draft_iff _
  · simp only [coherent_iff_fits]
    exact h.fits_prefixes_iff calls

def draftPlan : Plan :=
  { id := "plan_1", source := none, action := .splitByCategory, reason := "why",
    description := "what", createdAt := ⟨0, none⟩ }

def retriedCalls : List Call :=
  [.markReady, .addOperation (some { action := "create", target := none }), .markReady,
    .markExecuting ⟨0, none⟩, .markFailed "boom", .markExecuting ⟨1, none⟩, .markCompleted [] [] []]

theorem afterAll_coherent_iff_retried :
    draftPlan.IsNew ∧
      draftPlan.marks retriedCalls = [.ready, .executing, .failed, .executing, .completed] ∧
      ¬Coherent (draftPlan.afterAll retriedCalls) := by
  have hnew : draftPlan.IsNew := ⟨rfl, rfl, rfl⟩
  have hmarks : draftPlan.marks retriedCalls =
      [.ready, .executing, .failed, .executing, .completed] := by decide
  refine ⟨hnew, hmarks, fun h => ?_⟩
  have hlast := ((afterAll_coherent_iff hnew retriedCalls).1.mp h).2
  rw [hmarks] at hlast
  exact absurd hlast (by decide)

end SuiteTidy.Plan
