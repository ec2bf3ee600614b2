import SuiteTidy.Datum.Access
import SuiteTidy.Json.Store
import SuiteTidy.Moment.Reading
import SuiteTidy.Pattern.Basic

/-!
Patterns kept in a directory: one file for each pattern, and one for the last list that was saved.
Patterns that were saved through a store are known to it without a look at the files.
-/

set_option autoImplicit false
set_option relaxedAutoImplicit false

namespace SuiteTidy

/-- A directory of patterns and the patterns known from it. -/
structure PatternStore where
  folder : Path
  known : List (String × Pattern) := []
deriving Inhabited

namespace Pattern

def momentOf : Datum → Except Fault Moment
  | .text s => (Moment.read s).mapError .moment
  | _ => .error (.datum .notDateText)

/-- The frequency in a record; one that is empty is unknown. -/
def frequencyOf (d : Datum) : Except Fault (Option Frequency) := do
  if d.truthy then return some (← Frequency.ofWord d) else return none

def numberOf (place : String) (d : Datum) : Except Fault Number :=
  match d.number? with
  | some x => .ok x
  | none => .error (.datum (.textExpected place d.kindName))

def ofDatum (d : Datum) : Except Fault Pattern := do
  let item (key : String) : Except Fault Datum := (d.item key).mapError .datum
  let other (key : String) (v : Datum) : Datum := (d.field? key).getD v
  let count (key : String) : Except Fault Int :=
    match other key (.int 0) with
    | .int n => .ok n
    | x => .error (.datum (.textExpected key x.kindName))
  let text (key : String) : Except Fault String := do
    ((← item key).asText key).mapError .datum
  let id ← text "id"
  let kind ← PatternKind.ofWord (← item "type")
  let name ← text "name"
  let description ← text "description"
  let examples ← ((other "examples" (.list [])).textsOf "examples").mapError .datum
  let occurrences ← count "occurrences"
  let totalFiles ← count "total_files"
  let frequency ← frequencyOf (other "frequency" .null)
  let confidence ← numberOf "confidence" (other "confidence" (.real 0.0))
  let discoveredAt ← momentOf (← item "discovered_at")
  let lastSeen ← momentOf (← item "last_seen")
  let related ← ((other "related_patterns" (.list [])).textsOf "related_patterns").mapError .datum
  let recommendation ← match other "recommendation" .null with
    | .text s => pure (some s)
    | _ => pure none
  return { id, kind, name, description, examples, occurrences, totalFiles, frequency, confidence,
           discoveredAt, lastSeen, related, recommendation,
           isGoodPractice := (other "is_good_practice" (.bool true)).truthy }

end Pattern

namespace PatternStore

def openAt (folder : Path) : Work PatternStore := do
  Work.makeDirectories folder
  return { folder }

def known? (s : PatternStore) (id : String) : Option Pattern :=
  (s.known.find? (·.1 == id)).map (·.2)

def remember (s : PatternStore) (p : Pattern) : PatternStore :=
  { s with known := place s.known }
where
  /-- Puts the pattern in the place of an older one, or at the end. -/
  place : List (String × Pattern) → List (String × Pattern)
    | [] => [(p.id, p)]
    | (k, q) :: rest => if k = p.id then (k, p) :: rest else (k, q) :: place rest

def forget (s : PatternStore) (id : String) : PatternStore :=
  { s with known := s.known.filter (·.1 != id) }

def fileOf (s : PatternStore) (id : String) : Path :=
  s.folder.below ("pattern_" ++ id ++ ".json")

def listFile (s : PatternStore) : Path := s.folder.below "all_patterns.json"

def find? (s : PatternStore) (id : String) : Work (Option Pattern) := do
  match s.known? id with
  | some p => return some p
  | none =>
    if ← Work.pathExists (s.fileOf id) then
      let d ← Json.loadStrict (s.fileOf id)
      return some (← Work.lift (fun f => f) (Pattern.ofDatum d))
    else return none

/-- The patterns of the list that was saved last. -/
def all (s : PatternStore) : Work (List Pattern) := do
  if ← Work.pathExists s.listFile then
    let d ← Json.loadStrict s.listFile
    (← Work.lift Fault.datum d.members).mapM fun x => Work.lift (fun f => f) (Pattern.ofDatum x)
  else return []

def ofKind (s : PatternStore) (word : Datum) : Work (List Pattern) := do
  return (← s.all).filter fun p => word.same (.text p.kind.word)

def ofFrequency (s : PatternStore) (word : Datum) : Work (List Pattern) := do
  return (← s.all).filter fun p => word.same (.ofOption (fun f => .text f.word) p.frequency)

def significant (s : PatternStore) : Work (List Pattern) := do
  return (← s.all).filter (·.isSignificant)

def goodPractices (s : PatternStore) : Work (List Pattern) := do
  return (← s.all).filter (·.isGoodPractice)

def ids (s : PatternStore) : List String := (s.known.map (·.1)).mergeSort fun a b => a ≤ b

/-- Saves a pattern. It is known afterwards even if its file cannot be written. -/
def save (s : PatternStore) (p : Pattern) : Work (PatternStore × Except Fault Unit) := do
  return (s.remember p, ← Work.attempt (Json.store .stored p.toDatum (s.fileOf p.id)))

/-- Saves patterns one after another, up to the first that cannot be saved. -/
def saveEach (s : PatternStore) : List Pattern → Work (PatternStore × Except Fault Unit)
  | [] => return (s, .ok ())
  | p :: ps => do
    match ← s.save p with
    | (s', .ok ()) => saveEach s' ps
    | stopped => return stopped

def saveAll (s : PatternStore) (ps : List Pattern) : Work (PatternStore × Except Fault Unit) := do
  match ← s.saveEach ps with
  | (s', .ok ()) =>
    return (s', ← Work.attempt (Json.store .stored (.list (ps.map Pattern.toDatum)) s'.listFile))
  | stopped => return stopped

def removal (s : PatternStore) (id : String) : Work Bool := do
  if ← Work.pathExists (s.fileOf id) then
    Work.change fun t => t.removeFile (s.fileOf id)
    return true
  else return false

/-- Deletes a pattern, and tells whether it had a file. -/
def delete (s : PatternStore) (id : String) : Work (PatternStore × Except Fault Bool) := do
  return (s.forget id, ← Work.attempt (s.removal id))

def noteSeen (s : PatternStore) (id sample : String) : Work (PatternStore × Except Fault Unit) := do
  match ← Work.attempt (s.find? id) with
  | .error f => return (s, .error f)
  | .ok none => return (s, .ok ())
  | .ok (some p) => s.save (p.seen (← Work.now) sample)

end PatternStore
end SuiteTidy
