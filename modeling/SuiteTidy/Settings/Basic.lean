import SuiteTidy.Datum.Order
import SuiteTidy.Json.Store
import SuiteTidy.Yaml.Reader
import SuiteTidy.Yaml.Writer

/-!
The settings of the tool: a tree of values in a file, in which a dotted key names a path. They are
read from the file when they are first asked for.
-/

set_option autoImplicit false
set_option relaxedAutoImplicit false

namespace SuiteTidy

/-- The file of the settings, what was read from it, and whether it was read. -/
structure Settings where
  source : Path := .ofString "config/config.yaml"
  values : Datum := .dict []
  loaded : Bool := false
deriving Inhabited

namespace Settings

def pathOf (key : String) : List String := (key.toList.splitOn '.').map String.ofList

def valueAt : List String → Datum → Option Datum
  | [], d => some d
  | k :: ks, d => (d.field? k).bind (valueAt ks)

def putItem (key : String) (value : Datum) : Datum → Datum.Found Datum
  | .dict fields => .ok (.dict (Datum.put (.text key) value fields))
  | .list _ => .error (.listIndex "str")
  | d => .error (.notAssignable d.kindName)

/-- A change of a value, step by step: a result or a fault, and the value as it is then. What was
changed before a fault stays changed. -/
abbrev Edit (α : Type) : Type := ExceptT DatumFault (StateM Datum) α

/-- Steps into the value of a key, after an empty dictionary has been put there if the key was
missing. -/
def enter (key : String) : Edit Datum := do
  if !(← (← get).holds key) then set (← putItem key (.dict []) (← get))
  (← get).item key

/-- Changes a value that stands under a key of a container. The change shows in the container. -/
def within {α : Type} (key : String) (inner : Datum) (step : Edit α) : Edit α := fun d =>
  match step inner with
  | (result, changed) =>
    match putItem key changed d with
    | .ok container => (result, container)
    | .error _ => (result, d)

/-- Sets the value at the end of a path. Dictionaries that are missing on the path are made on the
way. -/
def assign (value : Datum) : List String → Edit Unit
  | [] => return
  | [k] => do set (← putItem k value (← get))
  | k :: ks => do within k (← enter k) (assign value ks)

def load (s : Settings) : Work Settings := do
  if !(← Work.pathExists s.source) then throw (.noSettings s.source)
  match Yaml.read? (← Work.readText s.source) with
  | some d => return { s with values := d, loaded := true }
  | none => throw .notYaml

def ready (s : Settings) : Work Settings := if s.loaded then pure s else s.load

/-- The value of a dotted key, or another one if there is none. -/
def get (s : Settings) (key : String) (other : Datum) : Datum :=
  (valueAt (pathOf key) s.values).getD other

inductive Section where
  | scanning
  | thresholds
  | output
  | complexityWeights
  | strategies
deriving Repr, DecidableEq, Inhabited

def Section.key : Section → String
  | scanning => "scanning"
  | thresholds => "thresholds"
  | output => "output"
  | complexityWeights => "complexity_weights"
  | strategies => "refactoring.strategies"

/-- The values of a part; a part that is missing is empty. -/
def sectionValues (s : Settings) (part : Section) : Datum := s.get part.key (.dict [])

/-- Sets the value of a dotted key: how that went, and the settings afterwards. -/
def update (s : Settings) (key : String) (value : Datum) : Except DatumFault Unit × Settings :=
  match assign value (pathOf key) s.values with
  | (result, values) => (result, { s with values })

def updated (s : Settings) (key : String) (value : Datum) : Except DatumFault Settings :=
  match s.update key value with
  | (result, after) => result.map fun _ => after

def copy (s : Settings) : Datum.Found Datum :=
  match s.values with
  | .dict fields => .ok (.dict fields)
  | .list items => .ok (.list items)
  | d => .error (.missingAttribute d.kindName "copy")

def save (s : Settings) (target : Path) : Work Unit := Work.writeText target (Yaml.text s.values)

def saveJson (s : Settings) (target : Path) : Work Unit := do
  let w := Json.render .exact s.values
  Work.writeText target w.text
  match w.fault with
  | some f => throw (.json f)
  | none => return

def standard : Datum :=
  .record
    [("project", .record [("name", .text "test-refactor-ai"), ("version", .text "2.1.0")]),
     ("scanning", .record
       [("root_directory", .text "backend/src"), ("max_workers", .int 4),
        ("exclude_dirs", .texts ["node_modules", "dist", "build"])]),
     ("thresholds", .record
       [("complexity", .record
         [("simple_max", .int 30), ("medium_max", .int 60), ("complex_min", .int 60)])])]

def create (target : Path) : Work Settings := do
  Work.makeDirectories target.parent
  Work.writeText target (Yaml.text standard)
  return { source := target }

end Settings
end SuiteTidy
