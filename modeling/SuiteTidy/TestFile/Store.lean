import SuiteTidy.Json.Store
import SuiteTidy.TestFile

/-!
Test files kept in a directory: the list of all of them and the list of those that need refactoring.
The lists are for other tools; a store itself knows only what was saved through it.
-/

set_option autoImplicit false
set_option relaxedAutoImplicit false

namespace SuiteTidy

structure TestFileStore where
  folder : Path
  known : List (Path × TestFile) := []
deriving Inhabited

namespace TestFileStore

def openAt (folder : Path) : Work TestFileStore := do
  Work.makeDirectories folder
  return { folder }

/-- The known file at a path. A record in the directory is read but not used. -/
def find? (s : TestFileStore) (p : Path) : Work (Option TestFile) := do
  match s.known.find? (·.1 == p) with
  | some (_, t) => return some t
  | none =>
    let record := s.folder.below (Path.flatName p.text ++ ".json")
    if ← Work.pathExists record then let _ ← Json.loadStrict record
    return none

def paths (s : TestFileStore) : List String :=
  (s.known.map fun (p, _) => p.text).mergeSort fun a b => a ≤ b

def listFile (s : TestFileStore) : Path := s.folder.below "all_files.json"

def candidateFile (s : TestFileStore) : Path := s.folder.below "candidates.json"

/-- The test files of the list: none are taken from it, but it must be readable. -/
def all (s : TestFileStore) : Work (List TestFile) := do
  if ← Work.pathExists s.listFile then let _ ← Json.loadStrict s.listFile
  return []

def ofModule (s : TestFileStore) (module : String) : Work (List TestFile) := do
  return (← s.all).filter (·.facts.module == module)

def needingRefactoring (s : TestFileStore) : Work (List TestFile) := do
  return (← s.all).filter (·.needsRefactoring)

/-- The store with a file known, in the place of an older one for its path. -/
def save (s : TestFileStore) (t : TestFile) : TestFileStore := { s with known := place s.known }
where
  /-- Puts the file in its place, or at the end. -/
  place : List (Path × TestFile) → List (Path × TestFile)
    | [] => [(t.facts.path, t)]
    | (k, u) :: rest => if k = t.facts.path then (k, t) :: rest else (k, u) :: place rest

/-- Saves test files and writes the two lists. Judging whether a file needs refactoring settles its
complexity, so the second list shows it where the first did not. -/
def saveAll (s : TestFileStore) (ts : List TestFile) :
    Work (TestFileStore × Except Fault Unit) := do
  let s' := (ts.map TestFile.settled).foldl save s
  let writing : Work Unit := do
    Json.store .stored (.list (ts.map TestFile.toDatum)) s.listFile
    let candidates := (ts.map TestFile.settled).filter TestFile.needsRefactoring
    Json.store .stored (.list (candidates.map TestFile.toDatum)) s.candidateFile
  return (s', ← Work.attempt writing)

/-- The known file at a path, whose complexity is settled by looking at it. -/
def look (s : TestFileStore) (p : Path) : Work (TestFileStore × Option TestFile) := do
  let found ← s.find? p
  return ((found.map fun t => s.save t.settled).getD s, found)

end TestFileStore
end SuiteTidy
