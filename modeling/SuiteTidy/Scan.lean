import SuiteTidy.Files.Glob
import SuiteTidy.Workspace

/-!
Finding files below a directory: test files, and files that fit patterns, all at once or in batches.
-/

set_option autoImplicit false
set_option relaxedAutoImplicit false

namespace SuiteTidy.Scan

def excluded : List String := ["node_modules", "dist", "build", ".git", "coverage"]

def patterns : List String := ["*.spec.ts", "*.test.ts", "*.spec.tsx", "*.test.tsx"]

/-- Directories that a search by patterns passes over unless it is told otherwise. -/
def excludedByDefault : List String := ["node_modules", "dist", "build", ".git"]

def passesThrough (names : List String) (p : Path) : Bool := names.any p.components.contains

def isWanted (p : Path) : Bool := !passesThrough excluded p && patterns.any (Glob.fits · p.name)

def isInTestDirectory (p : Path) : Bool :=
  p.components.contains "__tests__" || p.components.contains "test"

/-- The files below a directory, in the order of the directories that hold them. -/
def filesBelow (t : FileTree) (root : Path) : Except FileFault (List Path) := do
  if ← t.isDir root then
    return (t.below (← t.locate root)).filterMap fun (names, e) =>
      match e with
      | .file _ => some { root with parts := root.parts ++ names }
      | .directory => none
  else return []

def testFiles (t : FileTree) (root : Path) : Except FileFault (List Path) := do
  return (← filesBelow t root).filter isWanted

/-- The files that fit one pattern and pass through none of the names. Without a list of names, any
path at all that fits is a fault. -/
def byPattern (t : FileTree) (root : Path) (names : Option (List String)) (pattern : String) :
    Except Fault (List Path) := do
  let steps ← (Glob.stepsOf pattern).mapError .pattern
  let found ← (Glob.findBelow t root steps).mapError .file
  match names with
  | none => if found.isEmpty then return [] else .error (.datum (.notIterable "NoneType"))
  | some names =>
    (found.filter (!passesThrough names ·)).filterM fun p => (t.isFile p).mapError .file

def byPatterns (t : FileTree) (root : Path) (patterns : List String)
    (names : Option (List String)) : Except Fault (List Path) := do
  return (← patterns.mapM (byPattern t root names)).flatten

/-- A list in pieces of a given size; the last may be shorter. -/
def piecesTo {α : Type} (size : Nat) : Nat → List α → List (List α)
  | 0, _ => []
  | _, [] => []
  | fuel + 1, xs => xs.take size :: piecesTo size fuel (xs.drop size)

/-- A list in pieces of a given size; none for a negative size. -/
def pieces {α : Type} (size : Int) (xs : List α) : Except Fault (List (List α)) :=
  if size = 0 then .error .emptyStep
  else .ok (if 0 < size then piecesTo size.toNat xs.length xs else [])

structure Finding where
  path : Path
  outcome : Except String Datum
deriving Inhabited

def Finding.toDatum (f : Finding) : Datum :=
  let (success, data, words) : Bool × Datum × Datum := match f.outcome with
    | .ok d => (true, d, .null)
    | .error e => (false, .null, .text e)
  .record [("file_path", .path f.path), ("success", .bool success), ("data", data),
    ("error", words)]

/-- Works on every file, shared among workers; a fault is kept with the file. -/
def process (workers : Int) (work : Path → Work Datum) (files : List Path) :
    Work (List Finding) := do
  if workers ≤ 0 then throw .tooFewWorkers
  files.mapM fun p => do
    match ← Work.attempt (work p) with
    | .ok d => return { path := p, outcome := .ok d }
    | .error f => return { path := p, outcome := .error f.message }

/-- The time for a number of files that several workers share, with a tenth on top. -/
def estimate (files average workers : Number) : Number.Result Number := do
  (← (← files.times average).dividedBy workers).times (.real 1.1)

end SuiteTidy.Scan
