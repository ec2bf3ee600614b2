import SuiteTidy.Files.Layout
import SuiteTidy.Plan.Basic
import SuiteTidy.TestFile.Store

/-!
Making plans for test files: which action fits a file, the operations that carry it out, how sure a
plan is, and how urgent.
-/

set_option autoImplicit false
set_option relaxedAutoImplicit false

namespace SuiteTidy.Planning

/-- The best action for a file, and the file with its complexity settled if that was asked for. -/
def choose (t : TestFile) : Action × TestFile :=
  if t.categories.length > 6 then (.splitByCategory, t)
  else if t.testCases.length > 20 then (.splitByConcern, t)
  else if t.mockData.length > 5 then (.extractShared, t)
  else if t.needsRefactoring then (.splitByConcern, t.settled)
  else (.keepAsIs, t.settled)

def describe (t : TestFile) (a : Action) : String :=
  let name := t.facts.path.name
  match a with
  | .splitByCategory =>
    "Split " ++ name ++ " into " ++ toString t.categories.length ++ " category-based files"
  | .splitByConcern => "Split " ++ name ++ " into separate test concerns"
  | .extractShared =>
    "Extract " ++ toString t.mockData.length ++ " mock utilities from " ++ name
  | .keepAsIs => "Keep " ++ name ++ " as-is (well-organized)"
  | .consolidate => "Refactor test file"

def beside (t : TestFile) (tail : String) : Path :=
  t.facts.path.parent.below (FileLayout.baseName t.facts.path ++ "." ++ tail ++ ".spec.ts")

def creation (t : TestFile) (target : Path) (reason : String) : Operation :=
  { action := "create", source := some (.path t.facts.path), target := some (.path target), reason }

def categoryOperations (t : TestFile) : List Operation :=
  t.categories.map fun c =>
    creation t (beside t (replaced (lowered c) " " "-")) ("Category: " ++ c)

/-- The number of parts for a number of tests: two or three. -/
def partCount (tests : Nat) : Nat := min 3 (max 2 (tests / 10))

def concernOperations (t : TestFile) : List Operation :=
  (List.range (partCount t.testCases.length)).map fun i =>
    creation t (beside t ("part" ++ toString (i + 1))) ("Split part " ++ toString (i + 1))

def sharedOperations (t : TestFile) : List Operation :=
  [{ action := "create", target := some (.path (t.facts.path.parent.below "test-utils.ts")),
     reason := "Extract shared mock data and utilities" },
   { action := "modify", source := some (.path t.facts.path), target := some (.path t.facts.path),
     reason := "Update imports to use extracted utilities" }]

def operationsFor (t : TestFile) : Action → List Operation
  | .splitByCategory => categoryOperations t
  | .splitByConcern => concernOperations t
  | .extractShared => sharedOperations t
  | .keepAsIs => []
  | .consolidate => []

def confidence (t : TestFile) (a : Action) : Float :=
  if a = .splitByCategory ∧ t.categories.length > 8 then 0.9
  else if a = .extractShared ∧ t.mockData.length > 7 then 0.85
  else if t.complexity.any (·.score.exceeds 70) then 0.8
  else 0.5

/-- How urgent a plan is, from one to five. -/
def priority (t : TestFile) : Int :=
  if t.complexity.any (·.score.exceeds 80) then 5
  else if t.facts.totalLines > 500 then 4
  else if t.categories.length > 10 then 4
  else 3

def planFor (id : String) (now : Moment) (t : TestFile) : Except Fault Plan :=
  let a := (choose t).1
  let settled := t.settled
  Plan.markReady
    { id, source := some (.path t.facts.path), action := a, reason := t.refactoringReason,
      description := describe t a, operations := (operationsFor t a).map some,
      confidence := .real (confidence settled a), priority := priority settled, createdAt := now }

def planId (n : Nat) : String := "plan_" ++ String.ofList (Text.hexDigits n 8)

/-- The plans for the files that need refactoring, numbered from the one after `issued`. -/
def plansFrom (now : Moment) : Nat → List TestFile → Except Fault (List Plan)
  | _, [] => .ok []
  | issued, t :: ts => do
    if t.needsRefactoring then
      return (← planFor (planId (issued + 1)) now t) :: (← plansFrom now (issued + 1) ts)
    else plansFrom now issued ts

/-- Plans with the most urgent first; plans of one urgency keep their order. -/
def byUrgency (ps : List Plan) : List Plan := ps.mergeSort fun p q => q.priority ≤ p.priority

def generate (ts : List TestFile) : Work (List Plan) := do
  let w ← get
  let ps ← Work.lift (fun f => f) (plansFrom w.now w.issued ts)
  set { w with issued := w.issued + ps.length }
  return byUrgency ps

structure Summary where
  total : Nat
  splitByCategory : Nat
  splitByConcern : Nat
  extractShared : Nat
  keepAsIs : Nat
  averageConfidence : Number
  takenAt : Moment

def summarize (now : Moment) (ps : List Plan) : Except Fault Summary := do
  let count (a : Action) : Nat := ps.countP (·.action == a)
  let average ←
    if ps.isEmpty then pure (.int 0)
    else
      (do (← Number.sum (ps.map Plan.confidence)).dividedBy (.int ps.length)).mapError Fault.number
  return { total := ps.length, splitByCategory := count .splitByCategory,
           splitByConcern := count .splitByConcern, extractShared := count .extractShared,
           keepAsIs := count .keepAsIs, averageConfidence := average, takenAt := now }

def Summary.toDatum (s : Summary) : Datum :=
  .record [("total_plans", .nat s.total), ("split_by_category", .nat s.splitByCategory),
    ("split_by_concern", .nat s.splitByConcern), ("extract_shared", .nat s.extractShared),
    ("keep_as_is", .nat s.keepAsIs), ("avg_confidence", .ofNumber s.averageConfidence),
    ("timestamp", .moment s.takenAt)]

/-- What plans are asked for: for which files, how many at most, and for which file alone. -/
structure Request where
  files : Option (List TestFile) := none
  limit : Option Int := none
  target : Option Path := none
  verbose : Bool := false

/-- The first elements of a list; a negative number leaves out as many at the end. -/
def firstOf {α : Type} (n : Int) (xs : List α) : List α :=
  if 0 ≤ n then xs.take n.toNat else xs.take (xs.length - n.natAbs)

def Request.select (r : Request) (files : List TestFile) : List TestFile :=
  let aimed := match r.target with
    | some p => files.filter (·.facts.path == p)
    | none => files
  match r.limit with
  | some n => if n = 0 then aimed else firstOf n aimed
  | none => aimed

/-- The given files, or else those of a store that need refactoring. -/
def filesOr (store : TestFileStore) : Option (List TestFile) → Work (List TestFile)
  | some ts => return ts
  | none => store.needingRefactoring

def plansWithSummary (files : List TestFile) : Work (List Plan × Summary) := do
  let ps ← generate files
  return (ps, ← Work.lift (fun f => f) (summarize (← Work.now) ps))

/-- Makes the plans that are asked for and tells about it. -/
def run (store : TestFileStore) (r : Request) : Work (List Plan × Summary) := do
  if r.verbose then
    Work.printLine "🎯 Generating refactoring plans..."
    if let some n := r.limit then
      if n ≠ 0 then Work.printLine ("   Max files: " ++ toString n)
    if let some p := r.target then Work.printLine ("   Target file: " ++ p.text)
  let files := r.select (← filesOr store r.files)
  if r.verbose then Work.printLine ("   Files to analyze: " ++ toString files.length)
  let (ps, s) ← plansWithSummary files
  if r.verbose then
    Work.printLine "\n✅ Plan generation complete!"
    Work.printLine ("   Total plans: " ++ toString s.total)
    Work.printLine ("   Avg confidence: " ++
      (← Work.lift Fault.number (s.averageConfidence.percent 2)))
  return (ps, s)

end SuiteTidy.Planning
