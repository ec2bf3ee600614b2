import SuiteTidy.Files.Reference

/-!
Plans to refactor a test file: the operations on files that a plan consists of, and the states that
a plan goes through. A plan becomes a success by being completed and stays one until it fails, and
what it was told about a failure or a skip stays for good.
-/

set_option autoImplicit false
set_option relaxedAutoImplicit false

namespace SuiteTidy

inductive Action where
  | splitByCategory
  | splitByConcern
  | extractShared
  | keepAsIs
  | consolidate
deriving Repr, DecidableEq, Inhabited

namespace Action

def all : List Action := [splitByCategory, splitByConcern, extractShared, keepAsIs, consolidate]

def word : Action → String
  | splitByCategory => "split_by_category"
  | splitByConcern => "split_by_concern"
  | extractShared => "extract_shared"
  | keepAsIs => "keep_as_is"
  | consolidate => "consolidate"

def name : Action → String
  | splitByCategory => "RefactorAction.SPLIT_BY_CATEGORY"
  | splitByConcern => "RefactorAction.SPLIT_BY_CONCERN"
  | extractShared => "RefactorAction.EXTRACT_SHARED"
  | keepAsIs => "RefactorAction.KEEP_AS_IS"
  | consolidate => "RefactorAction.CONSOLIDATE"

def ofWord (d : Datum) : Except Fault Action :=
  match d with
  | .text w =>
    match all.find? (·.word == w) with
    | some a => .ok a
    | none => .error (.datum (.notMember d "RefactorAction"))
  | _ => .error (.datum (.notMember d "RefactorAction"))

end Action

inductive PlanStatus where
  | draft
  | ready
  | executing
  | completed
  | failed
  | skipped
deriving Repr, DecidableEq, Inhabited

namespace PlanStatus

def all : List PlanStatus := [draft, ready, executing, completed, failed, skipped]

def word : PlanStatus → String
  | draft => "draft"
  | ready => "ready"
  | executing => "executing"
  | completed => "completed"
  | failed => "failed"
  | skipped => "skipped"

def ofWord (d : Datum) : Except Fault PlanStatus :=
  match d with
  | .text w =>
    match all.find? (·.word == w) with
    | some a => .ok a
    | none => .error (.datum (.notMember d "PlanStatus"))
  | _ => .error (.datum (.notMember d "PlanStatus"))

end PlanStatus

/-- An operation on a file. The action is a free text; `create`, `modify` and `delete` are known. -/
structure Operation where
  action : String
  source : Option FileRef := none
  target : Option FileRef
  content : Option String := none
  reason : String := ""
deriving Repr, DecidableEq, Inhabited

namespace Operation

def summary (o : Operation) : Datum :=
  .record [("action", .text o.action),
    ("source", match o.source with
      | some r => if r.isGiven then .text r.text else .null
      | none => .null),
    ("target", .text (FileRef.textOf o.target)), ("reason", .text o.reason)]

def toDatum (o : Operation) : Datum :=
  .record [("action", .text o.action), ("source_path", .ofOption FileRef.toDatum o.source),
    ("target_path", .ofOption FileRef.toDatum o.target), ("content", .ofOption .text o.content),
    ("reason", .text o.reason)]

end Operation

structure Impact where
  created : Nat
  modified : Nat
  deleted : Nat
  total : Nat
deriving Repr, DecidableEq, Inhabited

def Impact.toDatum (i : Impact) : Datum :=
  .record [("files_created", .nat i.created), ("files_modified", .nat i.modified),
    ("files_deleted", .nat i.deleted), ("total_operations", .nat i.total)]

/-- A plan for a test file. An operation may be missing from its place in the list, and so may the
list of files that were created. -/
structure Plan where
  id : String
  source : Option FileRef
  action : Action
  reason : String
  description : String
  operations : List (Option Operation) := []
  impact : Option Impact := none
  confidence : Number := .real 0.0
  priority : Int := 1
  status : PlanStatus := .draft
  createdAt : Moment
  executedAt : Option Moment := none
  success : Bool := false
  errorMessage : Option String := none
  filesCreated : Option (List FileRef) := some []
  filesModified : List Path := []
  filesDeleted : List Path := []
deriving Repr, Inhabited

namespace Plan

def operationsAll (p : Plan) : Except Fault (List Operation) :=
  p.operations.mapM fun
    | some o => .ok o
    | none => .error (.datum (.missingAttribute "NoneType" "action"))

def countOf (action : String) (os : List Operation) : Nat :=
  (os.filter (·.action == action)).length

def impactOf (os : List Operation) : Impact :=
  { created := countOf "create" os, modified := countOf "modify" os,
    deleted := countOf "delete" os, total := os.length }

def addOperation (p : Plan) (o : Option Operation) : Plan :=
  { p with operations := p.operations ++ [o] }

def estimateImpact (p : Plan) : Except Fault Plan := do
  return { p with impact := some (impactOf (← p.operationsAll)) }

def markReady (p : Plan) : Except Fault Plan :=
  if p.operations.isEmpty then .error .nothingPlanned
  else do return { ← p.estimateImpact with status := .ready }

def markExecuting (p : Plan) (now : Moment) : Plan :=
  { p with status := .executing, executedAt := some now }

def markCompleted (p : Plan) (created : List FileRef) (modified deleted : List Path) : Plan :=
  { p with
    status := .completed, success := true, filesCreated := some created,
    filesModified := modified, filesDeleted := deleted }

def markFailed (p : Plan) (message : String) : Plan :=
  { p with status := .failed, success := false, errorMessage := some message }

def markSkipped (p : Plan) (reason : String) : Plan :=
  { p with status := .skipped, errorMessage := some reason }

/-- Whether a plan can be executed: it is ready, has operations and enough confidence. -/
def isExecutable (p : Plan) : Bool :=
  p.status == .ready && !p.operations.isEmpty && Number.atMost (.real 0.5) p.confidence

def summary (p : Plan) : Except Fault String := do
  let source ← FileRef.asPath "name" p.source
  let confidence ← (p.confidence.percent 2).mapError .number
  let total := match p.impact with
    | some i => i.total
    | none => 0
  return p.action.word ++ ": " ++ source.name ++ "\n  Reason: " ++ p.reason ++
    "\n  Operations: " ++ toString total ++ "\n  Confidence: " ++ confidence ++
    "\n  Status: " ++ p.status.word

/-- The counts of a plan as a record, empty before they have been taken. -/
def impactDatum (p : Plan) : Datum :=
  match p.impact with
  | some i => i.toDatum
  | none => .record []

def toDatum (p : Plan) : Except Fault Datum := do
  let operations ← p.operationsAll
  return .record [("id", .text p.id), ("source_file", .text (FileRef.textOf p.source)),
    ("action", .text p.action.word), ("reason", .text p.reason),
    ("description", .text p.description), ("operations", .list (operations.map Operation.summary)),
    ("estimated_impact", p.impactDatum), ("confidence", .ofNumber p.confidence),
    ("priority", .int p.priority), ("status", .text p.status.word),
    ("created_at", .text p.createdAt.iso),
    ("executed_at", .ofOption (fun m => .text m.iso) p.executedAt),
    ("success", .bool p.success), ("error_message", .ofOption .text p.errorMessage)]

/-- A plan as a record together with how it went. The plan itself is left out if an operation is
missing. -/
def details (p : Plan) : Except Fault Datum := do
  let record ← if p.operations.contains none then pure .null else p.toDatum
  let created ← match p.filesCreated with
    | some refs => pure refs
    | none => .error (.datum (.missingAttribute "RefactorPlan" "files_created"))
  return .record [("dict", record), ("status", .text p.status.word), ("success", .bool p.success),
    ("error_message", .ofOption .text p.errorMessage), ("estimated_impact", p.impactDatum),
    ("files_created", .list (created.map FileRef.toDatum)),
    ("files_modified", .list (p.filesModified.map .path)),
    ("files_deleted", .list (p.filesDeleted.map .path))]

end Plan
end SuiteTidy
