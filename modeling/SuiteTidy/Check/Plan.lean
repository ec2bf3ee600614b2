import SuiteTidy.Files.Tree
import SuiteTidy.Order.Insertion
import SuiteTidy.Plan.Basic

/-!
Rules that plans have to keep before they are executed, and conflicts between plans.
-/

set_option autoImplicit false
set_option relaxedAutoImplicit false

namespace SuiteTidy.PlanCheck

def operationLimit : Nat := 50

def actions : List String := ["create", "modify", "delete"]

def broken {α : Type} (rule : String) (p : Plan) (more : List (String × Datum)) : Except Fault α :=
  .error (.invalid rule (("plan_id", .text p.id) :: more))

def texts (p : Plan) : Except Fault Unit :=
  if p.id = "" then .error (.invalid "Plan ID cannot be empty" [])
  else if p.description = "" then broken "Plan description cannot be empty" p []
  else if p.reason = "" then broken "Plan reason cannot be empty" p []
  else .ok ()

def source (t : FileTree) (p : Plan) : Except Fault Unit :=
  match p.source with
  | none => broken "Source file cannot be None" p []
  | some (.plain s) =>
    if s = "" then broken "Source file cannot be None" p []
    else broken "Source file must be a Path object" p [("type", .text "str")]
  | some (.path file) => do
    if ← (t.exists_ file).mapError .file then return
    else broken "Source file does not exist" p [("path", .text file.text)]

def operation (p : Plan) (index : Nat) : Option Operation → Except Fault Unit
  | none => .error (.datum (.missingAttribute "NoneType" "action"))
  | some o =>
    if o.action = "" then broken ("Operation " ++ toString index ++ " missing action") p []
    else if !actions.contains o.action then
      broken ("Invalid operation action: " ++ o.action) p [("operation_index", .nat index)]
    else if !(o.target.any FileRef.isGiven) then
      broken ("Operation " ++ toString index ++ " missing target path") p []
    else .ok ()

def operationsFrom (p : Plan) : Nat → List (Option Operation) → Except Fault Unit
  | _, [] => .ok ()
  | index, o :: os => do
    operation p index o
    operationsFrom p (index + 1) os

def operations (p : Plan) : Except Fault Unit :=
  if p.operations.isEmpty then broken "Plan must have at least one operation" p []
  else if p.operations.length > operationLimit then
    broken ("Plan has too many operations (max: " ++ toString operationLimit ++ ")") p
      [("count", .nat p.operations.length)]
  else operationsFrom p 0 p.operations

/-- The confidence must lie between 0.3 and one. -/
def confidence (p : Plan) : Except Fault Unit :=
  let details : List (String × Datum) := [("confidence", .ofNumber p.confidence)]
  if !(Number.atMost (.int 0) p.confidence && Number.atMost p.confidence (.int 1)) then
    broken "Confidence must be between 0 and 1" p details
  else if p.confidence.less (.real 0.3) then broken "Confidence too low (min: 0.3)" p details
  else .ok ()

/-- The plan must be a draft or ready. -/
def status (p : Plan) : Except Fault Unit :=
  if p.status = .draft ∨ p.status = .ready then .ok ()
  else
    broken "Plan must be in DRAFT or READY status for validation" p
      [("status", .text p.status.word)]

def plan (t : FileTree) (p : Plan) : Except Fault Unit := do
  texts p
  source t p
  operations p
  confidence p
  status p

/-- The plans that keep all rules. A fault of another kind ends the search. -/
def batch (t : FileTree) : List Plan → Except Fault (List Plan)
  | [] => .ok []
  | p :: ps => do
    match plan t p with
    | .ok () => return p :: (← batch t ps)
    | .error (.invalid _ _) => batch t ps
    | .error f => .error f

/-- Two plans that cannot both be carried out, and why. -/
structure Conflict where
  first : String
  second : String
  reason : String
deriving Repr, DecidableEq

def Conflict.toDatum (c : Conflict) : Datum :=
  .tuple [.text c.first, .text c.second, .text c.reason]

def targets (p : Plan) : Except Fault (List (Option FileRef)) :=
  p.operations.mapM fun
    | some o => .ok o.target
    | none => .error (.datum (.missingAttribute "NoneType" "target_path"))

/-- The targets of one plan that another has too, each once, in the order of their texts. -/
def sharedTargets (xs ys : List (Option FileRef)) : List String :=
  let shared := (xs.filter ys.contains).eraseDups
  (shared.map fun r => (Datum.ofOption FileRef.toDatum r).shown).mergeSort (fun a b => a ≤ b)

/-- The conflicts of two plans: the same source, or targets in common. -/
def conflictsOf (p q : Plan) : Except Fault (List Conflict) := do
  let sameSource ←
    if p.source = q.source then
      let file ← FileRef.asPath "name" p.source
      pure
        [{ first := p.id, second := q.id, reason := "Both plans target " ++ file.name : Conflict }]
    else pure []
  let shared := sharedTargets (← targets p) (← targets q)
  let sameTarget :=
    if shared.isEmpty then []
    else
      [{ first := p.id, second := q.id, reason := "Plans have overlapping target files: \x7b" ++
          ", ".intercalate shared ++ "\x7d" : Conflict }]
  return sameSource ++ sameTarget

def conflicts : List Plan → Except Fault (List Conflict)
  | [] => .ok []
  | p :: ps => do
    let here ← ps.mapM (conflictsOf p)
    return here.flatten ++ (← conflicts ps)

end SuiteTidy.PlanCheck
