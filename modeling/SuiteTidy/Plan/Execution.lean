import SuiteTidy.Files.Safe
import SuiteTidy.Plan.Basic
import SuiteTidy.Suite.Draft

/-!
Carrying out plans: every executable plan writes the files that it creates, and ends completed or
failed. Each step is told.
-/

set_option autoImplicit false
set_option relaxedAutoImplicit false

namespace SuiteTidy.Execution

def tell (words : String) : Work Unit := Work.printLine ("DEBUG " ++ words)

def contentFor (now : Moment) (p : Plan) (o : Operation) : String :=
  Suite.header now ("Split from " ++ FileRef.textOf p.source ++ " - " ++ o.reason) ++
    "\nimport \x7b Test \x7d from '@nestjs/testing';\n\ndescribe('Test Suite - " ++ o.reason ++
    "', () => \x7b\n  it('should test functionality', () => \x7b\n" ++
    "    // Auto-generated by Test Refactor AI\n    expect(true).toBe(true);\n  \x7d);\n\x7d);\n"

def generate (hasGenerator : Bool) (p : Plan) (o : Operation) : Work String := do
  tell ("_generate_file_content for: " ++ FileRef.textOf o.target)
  if hasGenerator then return contentFor (← Work.now) p o
  else throw (.datum (.missingAttribute "NoneType" "generate_file_header"))

def noteCreated (p : Plan) (o : Operation) : Plan :=
  match o.target with
  | some r => { p with filesCreated := some (p.filesCreated.getD [] ++ [r]) }
  | none => p

def createFile (hasGenerator : Bool) (p : Plan) (o : Operation) : Work (Plan × Bool) := do
  let target := FileRef.textOf o.target
  tell ("_create_file called for: " ++ target)
  match ← Work.attempt (generate hasGenerator p o) with
  | .error f =>
    tell ("_create_file error: " ++ f.message)
    return (p, false)
  | .ok content =>
    tell ("Generated content length: " ++ toString content.length)
    let written ← SafeFile.write o.target content false
    tell ("safe_write result: " ++ (Datum.bool written).plain)
    if written then
      tell ("File created successfully: " ++ target)
      return (noteCreated p o, true)
    else
      tell ("File creation failed: " ++ target)
      return (p, false)

/-- Carries out one operation. Only files that are to be created are touched. -/
def perform (hasGenerator : Bool) (p : Plan) (o : Operation) : Work (Plan × Bool) := do
  tell ("Executing operation: " ++ o.action ++ " -> " ++ FileRef.textOf o.target)
  if o.action = "create" then createFile hasGenerator p o else return (p, false)

/-- Carries out operations one after another, up to a missing one; counts the files created. -/
def performAll (hasGenerator : Bool) :
    Plan → Nat → List (Option Operation) → Work (Plan × Except Fault Nat)
  | p, created, [] => return (p, .ok created)
  | p, _, none :: _ => return (p, .error (.datum (.missingAttribute "NoneType" "action")))
  | p, created, some o :: os => do
    let (p', done) ← perform hasGenerator p o
    performAll hasGenerator p' (if done then created + 1 else created) os

inductive Outcome where
  | skipped
  | completed (created : Nat)
  | failed
deriving Repr, DecidableEq, Inhabited

def executePlan (hasGenerator : Bool) (p : Plan) : Work (Plan × Outcome) := do
  tell ("Processing plan: " ++ p.id)
  tell ("Plan source: " ++ FileRef.textOf p.source)
  tell ("Plan action: " ++ p.action.name)
  tell ("Plan operations: " ++ toString p.operations.length)
  if !p.isExecutable then
    tell ("Plan " ++ p.id ++ " is not executable, skipping")
    return (p, .skipped)
  else
    match ← performAll hasGenerator (p.markExecuting (← Work.now)) 0 p.operations with
    | (p', .ok created) =>
      let p'' := p'.markCompleted (p'.filesCreated.getD []) p'.filesModified p'.filesDeleted
      tell ("Plan " ++ p.id ++ " executed successfully, created " ++ toString created ++ " files")
      return (p'', .completed created)
    | (p', .error f) =>
      tell ("Plan " ++ p.id ++ " failed: " ++ f.message)
      return (p'.markFailed f.message, .failed)

structure Tally where
  executed : Nat
  successful : Nat := 0
  failed : Nat := 0
  filesCreated : Nat := 0
  finishedAt : Moment
deriving Repr, DecidableEq, Inhabited

def Outcome.created : Outcome → Nat
  | completed n => n
  | _ => 0

def Outcome.isCompleted : Outcome → Bool
  | completed _ => true
  | _ => false

def Tally.of (now : Moment) (outcomes : List Outcome) : Tally :=
  { executed := outcomes.length, successful := outcomes.countP Outcome.isCompleted,
    failed := outcomes.countP (· == .failed),
    filesCreated := (outcomes.map Outcome.created).foldr (· + ·) 0, finishedAt := now }

def executeAll (hasGenerator : Bool) (ps : List Plan) : Work (List Plan × Tally) := do
  tell ("execute_plans called with " ++ toString ps.length ++ " plans")
  let done ← ps.mapM (executePlan hasGenerator)
  let tally := Tally.of (← Work.now) (done.map (·.2))
  tell ("Execution completed: " ++ toString tally.successful ++ " successful, " ++
    toString tally.failed ++ " failed, " ++ toString tally.filesCreated ++ " files created")
  return (done.map (·.1), tally)

structure Request where
  plans : List Plan
  backup : Bool := true
  dryRun : Bool := false
  verbose : Bool := false
  hasGenerator : Bool := true

def preview (p : Plan) : Work Unit := do
  Work.printLine ("Plan: " ++ p.id)
  Work.printLine ("  Action: " ++ p.action.word)
  Work.printLine ("  Source: " ++ (← Work.lift (fun f => f) (FileRef.asPath "name" p.source)).name)
  Work.printLine ("  Operations: " ++ toString p.operations.length)
  Work.printLine ""

/-- Counts what would be done, as if everything worked. -/
def simulate (r : Request) : Work (List Plan × Tally) := do
  if r.verbose then
    Work.printLine "\n🔍 DRY RUN - Simulating execution...\n"
    for p in r.plans do preview p
  return (r.plans, { executed := r.plans.length, successful := r.plans.length,
                     filesCreated := (r.plans.map (·.operations.length)).foldr (· + ·) 0,
                     finishedAt := ← Work.now })

/-- Executes plans or simulates it, and tells about it. -/
def run (r : Request) : Work (List Plan × Tally) := do
  let flag (b : Bool) : String := (Datum.bool b).plain
  tell "ExecutionService initialized"
  tell "ExecuteRefactoringUseCase.execute called"
  tell ("Request plans: " ++ toString r.plans.length)
  tell ("Dry run: " ++ flag r.dryRun)
  tell ("Verbose: " ++ flag r.verbose)
  if r.verbose then
    Work.printLine ("⚡ Executing refactoring plans - Mode: " ++
      (if r.dryRun then "DRY RUN" else "LIVE EXECUTION"))
    Work.printLine ("   Plans to execute: " ++ toString r.plans.length)
    Work.printLine ("   Backup enabled: " ++ flag r.backup)
  if r.dryRun then simulate r
  else
    let (ps, t) ← executeAll r.hasGenerator r.plans
    if r.verbose then
      Work.printLine "\n✅ Execution complete!"
      Work.printLine ("   Successful: " ++ toString t.successful)
      Work.printLine ("   Failed: " ++ toString t.failed)
      Work.printLine ("   Files created: " ++ toString t.filesCreated)
      Work.printLine "   Time: 0.00s"
    return (ps, t)

def Tally.toDatum (t : Tally) : Datum :=
  .record [("total_executed", .nat t.executed), ("successful", .nat t.successful),
    ("failed", .nat t.failed), ("files_created", .nat t.filesCreated),
    ("execution_time", .real 0.0), ("timestamp", .moment t.finishedAt)]

end SuiteTidy.Execution
