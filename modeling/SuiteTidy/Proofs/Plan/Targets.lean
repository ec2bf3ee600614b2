import SuiteTidy.Proofs.Files.Listing
import SuiteTidy.Proofs.Files.Way
import SuiteTidy.Proofs.Plan.Admission
import SuiteTidy.Proofs.Text.Occurrence

/-!
Where the files of a plan are to be made. The names of groups go into file names with their slashes,
and then they are read as paths. Main statement: a plan stays in the directory of its source exactly
if no group that gets a file of its own leads out of it.
-/

set_option autoImplicit false
set_option relaxedAutoImplicit false

namespace SuiteTidy

def Plan.TargetsIn (p : Plan) (folder : Path) : Prop :=
  ∀ o ∈ p.operations, ∃ x target, o = some x ∧ x.target = some (.path target) ∧
    target.ChildOf folder

/-! The base of the names. -/

private theorem mem_of_mem_replaced {s old : String} {x : Char}
    (h : x ∈ (replaced s old "").toList) : x ∈ s.toList := by
  rw [replaced, String.toList_ofList] at h
  simpa using Text.mem_replaceAll h

private theorem mem_of_mem_stem {p : Path} {x : Char} (h : x ∈ p.stem.toList) :
    x ∈ p.name.toList := by
  simp only [Path.stem, Path.splitName] at h
  split_ifs at h
  · rw [String.toList_ofList] at h
    exact List.mem_of_mem_take h
  · exact h

private theorem Path.ChildOf.slash_not_mem_name {p folder : Path} (h : p.ChildOf folder) :
    '/' ∉ p.name.toList := by
  obtain ⟨name, hslash, -, -, rfl⟩ := h
  simpa [Path.name] using hslash

namespace Planning

variable {t : TestFile}

private theorem slash_not_mem_baseName (h : t.facts.path.ChildOf t.facts.path.parent) :
    '/' ∉ (FileLayout.baseName t.facts.path).toList := by
  intro hmem
  apply h.slash_not_mem_name
  exact mem_of_mem_stem (mem_of_mem_replaced (mem_of_mem_replaced hmem))

/-- The start of the names of the files that a plan makes from a test file. -/
def front (t : TestFile) : String := FileLayout.baseName t.facts.path ++ "."

theorem slash_not_mem_front (h : t.facts.path.ChildOf t.facts.path.parent) :
    '/' ∉ (front t).toList := by
  simp [front, slash_not_mem_baseName h]

def categoryFile (t : TestFile) (c : String) : Path := beside t (slug c)

theorem categoryOperations_eq (t : TestFile) :
    categoryOperations t =
      t.categories.map fun c => creation t (categoryFile t c) ("Category: " ++ c) := rfl

theorem beside_eq (h : t.facts.path.ChildOf t.facts.path.parent) (tail : String) :
    beside t tail =
      { t.facts.path.parent with
        parts := t.facts.path.parent.parts ++ (Path.way (front t ++ tail)).1 ++
          [(Path.way (front t ++ tail)).2 ++ ".spec.ts"] } := by
  refine Path.below_append (by decide) (by decide) ?_
  intro hhead
  have hne : (front t).toList ≠ [] := by simp [front]
  have hstart : (front t).toList.head? = some '/' := by
    change (front t ++ tail ++ ".spec.ts").toList.head? = some '/' at hhead
    rw [String.toList_append, String.toList_append, List.append_assoc] at hhead
    rwa [List.head?_append_of_ne_nil _ hne] at hhead
  exact slash_not_mem_front h (List.mem_of_mem_head? hstart)

theorem beside_childOf_iff (h : t.facts.path.ChildOf t.facts.path.parent) (tail : String) :
    (beside t tail).ChildOf t.facts.path.parent ↔ Path.Flat (front t ++ tail) := by
  rw [beside_eq h, Path.flat_iff]
  apply Path.childOf_iff
  · have hlast := Path.slash_not_mem_way (front t ++ tail)
    simp [hlast]
  · exact Path.isIdle_append_ending _ (by decide)
  · exact Path.append_ending_ne_dots _ (by decide)

/-! The operations of each action. -/

private theorem childOf_part (h : t.facts.path.ChildOf t.facts.path.parent) {i : Nat}
    (hi : i < partCount t.testCases.length) :
    (beside t ("part" ++ toString (i + 1))).ChildOf t.facts.path.parent := by
  have hdigits : ∀ i < 3, '/' ∉ ("part" ++ toString (i + 1)).toList := by decide
  have hfew : i < 3 := by
    simp only [partCount] at hi
    omega
  rw [beside_childOf_iff h, Path.flat_iff, Path.way_of_not_mem]
  rw [String.toList_append, List.mem_append, not_or]
  exact ⟨slash_not_mem_front h, hdigits i hfew⟩

private theorem childOf_utils (folder : Path) : (folder.below "test-utils.ts").ChildOf folder := by
  rw [Path.below_eq (by decide) (by decide) (by decide)]
  exact ⟨"test-utils.ts", by decide, by decide, by decide, rfl⟩

private theorem targetsIn_planned_iff (folder : Path) (id : String) (now : Moment) :
    (planned id now t).TargetsIn folder ↔
      ∀ o ∈ operationsFor t (choose t).1, ∃ target, o.target = some (.path target) ∧
        target.ChildOf folder := by
  simp [Plan.TargetsIn, planned]

private theorem targetsIn_planned_iff_flat (hneeds : t.needsRefactoring)
    (h : t.facts.path.ChildOf t.facts.path.parent) (id : String) (now : Moment) :
    (planned id now t).TargetsIn t.facts.path.parent ↔
      (6 < t.categories.length → ∀ c ∈ t.categories, Path.Flat (front t ++ c)) := by
  rw [targetsIn_planned_iff]
  rcases choose_cases hneeds with ⟨haction, hmany⟩ | ⟨haction | haction, hfew⟩
  · rw [haction, operationsFor, categoryOperations_eq, List.forall_mem_map]
    simp only [creation, categoryFile, Option.some.injEq, FileRef.path.injEq, exists_eq_left',
      beside_childOf_iff h, Path.flat_append_slug, hmany, forall_const]
  · refine ⟨fun _ hmany => absurd hmany (by omega), fun _ => ?_⟩
    rw [haction, operationsFor, concernOperations, List.forall_mem_map]
    intro i hi
    exact ⟨_, rfl, childOf_part h (List.mem_range.mp hi)⟩
  · refine ⟨fun _ hmany => absurd hmany (by omega), fun _ => ?_⟩
    rw [haction, operationsFor, sharedOperations, List.forall_mem_cons, List.forall_mem_singleton]
    exact ⟨⟨_, rfl, childOf_utils _⟩, ⟨_, rfl, h⟩⟩

/-- A file that needs refactoring gets a plan. All its targets are in the directory of the file
exactly if the file has few groups or, read as a path behind the start of the file names, none of
them leads through a name. That is, if the start is more than a dot, that none has a slash. -/
theorem targets_stay_iff (hneeds : t.needsRefactoring)
    (hsource : t.facts.path.ChildOf t.facts.path.parent) (id : String) (now : Moment) :
    ∃ p, planFor id now t = .ok p ∧
      (p.TargetsIn t.facts.path.parent ↔
        (6 < t.categories.length → ∀ c ∈ t.categories,
          Path.Flat (FileLayout.baseName t.facts.path ++ "." ++ c))) ∧
      (FileLayout.baseName t.facts.path ≠ "" →
        (p.TargetsIn t.facts.path.parent ↔
          (6 < t.categories.length → ∀ c ∈ t.categories, '/' ∉ c.toList))) := by
  have hiff := targetsIn_planned_iff_flat hneeds hsource id now
  refine ⟨planned id now t, planFor_eq hneeds id now, hiff, ?_⟩
  intro hbase
  have hlong : 1 < (front t).length := by
    have hpos : (FileLayout.baseName t.facts.path).length ≠ 0 := by
      simpa using hbase
    rw [front, String.length_append]
    have hdot : ".".length = 1 := by decide
    omega
  rw [hiff]
  refine imp_congr_right fun _ => forall₂_congr fun c _ => ?_
  exact Path.flat_append_iff hlong (slash_not_mem_front hsource) c

def sprawling : TestFile :=
  { grouped 0 with
    facts := { (grouped 0).facts with path := { parts := ["src", "user.spec.ts"] } }
    categories := ["login", "logout", "create", "update", "delete", "read/write", "up/../../out"] }

theorem targets_stay_iff_sprawling :
    sprawling.needsRefactoring ∧ sprawling.facts.path.ChildOf { parts := ["src"] } ∧
      ∃ p, planFor "plan_1" { micros := 0 } sprawling = .ok p ∧
        ¬p.TargetsIn { parts := ["src"] } ∧
        some (creation sprawling { parts := ["src", "user.up", "..", "..", "out.spec.ts"] }
          "Category: up/../../out") ∈ p.operations := by
  have hneeds : sprawling.needsRefactoring := by decide
  have hsource : sprawling.facts.path.ChildOf { parts := ["src"] } :=
    ⟨"user.spec.ts", by decide, by decide, by decide, rfl⟩
  obtain ⟨p, hp, -, hiff⟩ := targets_stay_iff hneeds hsource "plan_1" { micros := 0 }
  have hplan : planned "plan_1" { micros := 0 } sprawling = p :=
    Except.ok.inj ((planFor_eq hneeds "plan_1" { micros := 0 }).symm.trans hp)
  have htarget : categoryFile sprawling "up/../../out" =
      { parts := ["src", "user.up", "..", "..", "out.spec.ts"] } := by decide +kernel
  refine ⟨hneeds, hsource, p, hp, ?_, ?_⟩
  · rw [show ({ parts := ["src"] } : Path) = sprawling.facts.path.parent from rfl,
      hiff (by decide +kernel)]
    decide
  · rw [← hplan, ← htarget]
    exact List.mem_map.mpr ⟨_, List.mem_map.mpr ⟨"up/../../out", by decide, rfl⟩, rfl⟩

end Planning
end SuiteTidy
