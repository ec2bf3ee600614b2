import SuiteTidy.Proofs.Files.Held
import SuiteTidy.Proofs.Plan.Frame

/-!
What an execution overwrites. It goes through the writings of its plans one after another, and no
copy of an old file is kept, whether or not one was asked for. Main statement: an execution loses no
content exactly if every content that it overwrites stands in a file that it leaves alone, or is
written last somewhere itself.
-/

set_option autoImplicit false
set_option relaxedAutoImplicit false

namespace SuiteTidy.Execution

open SuiteTidy.Work SuiteTidy.FileTree

section Writings

variable (hasGenerator : Bool) (now : Moment)

def writingOf (p : Plan) (o : Operation) (t : FileTree) : List (Place × Content) :=
  if o.action = "create" ∧ hasGenerator then SafeFile.writing o.target (contentFor now p o) t
  else []

def writingsOf : Plan → List (Option Operation) → FileTree → List (Place × Content)
  | _, [], _ => []
  | _, none :: _, _ => []
  | p, some o :: os, t =>
    let done := performOn hasGenerator now p o t
    writingOf hasGenerator now p o t ++ writingsOf done.1.1 os done.2

def writings : List Plan → FileTree → List (Place × Content)
  | [], _ => []
  | p :: ps, t =>
    (if p.isExecutable then writingsOf hasGenerator now (p.markExecuting now) p.operations t
      else []) ++
      writings ps (executePlanOn hasGenerator now p t).2

private theorem holdsAfter_performOn (p : Plan) (o : Operation) (t : FileTree) :
    HoldsAfter (writingOf hasGenerator now p o t) t (performOn hasGenerator now p o t).2 := by
  by_cases hcreate : o.action = "create"
  · cases hasGenerator with
    | true =>
      simp only [writingOf, performOn, createFileOn, hcreate, and_self, if_true]
      exact SafeFile.holdsAfter_written o.target _ t
    | false =>
      simp only [writingOf, performOn, createFileOn, Bool.false_eq_true, and_false, if_false,
        ite_self]
      exact (Furnished.refl t).holdsAfter
  · simp only [writingOf, performOn, hcreate, false_and, if_false]
    exact (Furnished.refl t).holdsAfter

private theorem holdsAfter_performAllOn (p : Plan) (created : Nat) (os : List (Option Operation))
    (t : FileTree) :
    HoldsAfter (writingsOf hasGenerator now p os t) t
      (performAllOn hasGenerator now p created os t).2 := by
  induction os generalizing p created t with
  | nil => exact (Furnished.refl t).holdsAfter
  | cons o os ih =>
    cases o with
    | none => exact (Furnished.refl t).holdsAfter
    | some o => exact (holdsAfter_performOn hasGenerator now p o t).append (ih _ _ _)

theorem holdsAfter_executePlansOn (ps : List Plan) (t : FileTree) :
    HoldsAfter (writings hasGenerator now ps t) t (executePlansOn hasGenerator now ps t).2 := by
  induction ps generalizing t with
  | nil => exact (Furnished.refl t).holdsAfter
  | cons p ps ih =>
    refine HoldsAfter.append ?_ (ih _)
    rw [executePlanOn]
    split_ifs with hexec
    · exact holdsAfter_performAllOn hasGenerator now _ 0 _ t
    · exact (Furnished.refl t).holdsAfter

end Writings

/-- A live execution leaves the same files whether or not it was to keep copies of old ones. Of what
the files held before, nothing is lost exactly if whatever was overwritten stands in a file that was
left alone, or was written last somewhere. -/
theorem run_keeps_contents_iff {r : Request} (hlive : r.dryRun = false) (w : Workspace) :
    ∃ result w', run r w = (.ok result, w') ∧
      (∀ flag, (run { r with backup := flag } w).2.files = w'.files) ∧
      ((∀ place c, w.files.fileAt place = some c → ∃ other, w'.files.fileAt other = some c) ↔
        ∀ place c, w.files.fileAt place = some c →
          lastWritten (writings r.hasGenerator w.now r.plans w.files) place ≠ none →
          (∃ other, lastWritten (writings r.hasGenerator w.now r.plans w.files) other = none ∧
            w.files.fileAt other = some c) ∨
          ∃ other, lastWritten (writings r.hasGenerator w.now r.plans w.files) other = some c) := by
  obtain ⟨words, hrun⟩ := acts_live hlive w
  have hafter := holdsAfter_executePlansOn r.hasGenerator w.now r.plans w.files
  refine ⟨_, _, hrun, fun flag => ?_, ?_⟩
  · obtain ⟨more, hother⟩ := acts_live (r := { r with backup := flag }) hlive w
    rw [hother]
  · refine forall₃_congr fun place c hheld => ?_
    rw [hafter.exists_fileAt_iff]
    refine ⟨fun h _ => h, fun h => ?_⟩
    by_cases hleft : lastWritten (writings r.hasGenerator w.now r.plans w.files) place = none
    · exact .inl ⟨place, hleft, hheld⟩
    · exact h hleft

def overwriting : Operation :=
  { action := "create", target := some (.path { parts := ["a.spec.ts"] }), reason := "Create" }

def overwritingPlan : Plan :=
  { id := "plan_1", source := some (.path { parts := ["a.spec.ts"] }), action := .splitByConcern,
    reason := "Split", description := "", operations := [some overwriting], confidence := .int 1,
    status := .ready, createdAt := { micros := 0 } }

private theorem fileAt_oneFile {place : Place} {c : Content}
    (h : oneFile.files.fileAt place = some c) :
    place = ["a.spec.ts"] ∧ c = .bytes "test".toUTF8 := by
  rw [fileAt_eq_some_iff, lookup] at h
  split_ifs at h
  · cases h
  · simp only [oneFile, findEntry] at h
    split_ifs at h with hplace
    exact ⟨hplace.symm, (Entry.file.inj (Option.some.inj h)).symm⟩

/-- A copy is asked for, and still the content of the only file is lost. -/
theorem run_keeps_contents_iff_overwriting :
    ∃ result w', run { plans := [overwritingPlan], backup := true } oneFile = (.ok result, w') ∧
      oneFile.files.fileAt ["a.spec.ts"] = some (.bytes "test".toUTF8) ∧
      ∀ place, w'.files.fileAt place ≠ some (.bytes "test".toUTF8) := by
  have hwritings : writings true oneFile.now [overwritingPlan] oneFile.files =
      [(["a.spec.ts"], .bytes (contentFor oneFile.now overwritingPlan overwriting).toUTF8)] := rfl
  have hother : contentFor oneFile.now overwritingPlan overwriting ≠ "test" := by decide +kernel
  obtain ⟨result, w', hrun, -, hiff⟩ :=
    run_keeps_contents_iff (r := { plans := [overwritingPlan], backup := true }) rfl oneFile
  refine ⟨result, w', hrun, rfl, fun place hplace => ?_⟩
  -- If the content were held somewhere, nothing would be lost, for there is no other.
  have hkept := hiff.mp fun _ c hheld => ⟨place, (fileAt_oneFile hheld).2 ▸ hplace⟩
  simp only [hwritings] at hkept
  rcases hkept ["a.spec.ts"] _ rfl (by simp [lastWritten]) with
    ⟨other, hleft, hheld⟩ | ⟨other, hlast⟩
  · simp [lastWritten, (fileAt_oneFile hheld).1] at hleft
  · simp only [lastWritten, List.reverse_singleton, List.lookup_cons, List.lookup_nil] at hlast
    split at hlast
    · exact hother (String.toByteArray_inj.mp (Content.bytes.inj (Option.some.inj hlast)))
    · cases hlast

end SuiteTidy.Execution
