import SuiteTidy.Text.Case
import SuiteTidy.Workspace

/-!
Layouts of files that a refactoring will fill: which files and directories are to be made, making
them, and taking them away again.
-/

set_option autoImplicit false
set_option relaxedAutoImplicit false

namespace SuiteTidy

structure FileLayout where
  base : Path
  files : List Path
  directories : List Path
  description : String
deriving Repr, DecidableEq, Inhabited

namespace FileLayout

/-- The name of a test file without its extension and the marks of tests. -/
def baseName (p : Path) : String := replaced (replaced p.stem ".spec" "") ".test" ""

def partWord : String → String
  | "category" => "category"
  | "concern" => "part"
  | _ => "split"

def split (source : Path) (count : Int) (strategy : String) : FileLayout :=
  let folder := source.parent
  { base := folder
    files := (List.range count.toNat).map fun i =>
      folder.below (baseName source ++ "." ++ partWord strategy ++ toString (i + 1) ++ ".spec.ts")
    directories := [folder]
    description :=
      "Split " ++ source.name ++ " into " ++ toString count ++ " files by " ++ strategy }

def shared (source : Path) : FileLayout :=
  let folder := source.parent
  { base := folder
    files := ["test-utils.ts", "test-fixtures.ts", "test-mocks.ts"].map folder.below
    directories := [folder]
    description := "Extract shared utilities from " ++ source.name }

def modular (source : Path) (modules : List String) : FileLayout :=
  let folder := source.parent.below (baseName source ++ ".tests")
  { base := folder
    files := modules.map (fun m => folder.below (replaced (lowered m) " " "-" ++ ".spec.ts")) ++
      [folder.below "index.ts", folder.below "shared.ts"]
    directories := [folder]
    description := "Create modular structure for " ++ source.name }

def touch (p : Path) : Work Unit := do
  unless ← Work.pathExists p do Work.writeText p ""

/-- Makes the directories and empty files of a layout, and says whether it worked. -/
def create (l : FileLayout) : Work Bool := do
  let made : Work Unit := do
    for d in l.directories do Work.makeDirectories d
    for f in l.files do touch f
  match ← Work.attempt made with
  | .ok () => return true
  | .error f =>
    Work.printLine ("Error creating structure: " ++ f.message)
    return false

def preview (l : FileLayout) : Work Bool := do
  Work.printLine "[DRY RUN] Would create structure:"
  Work.printLine ("  Base: " ++ l.base.text)
  Work.printLine ("  Directories: " ++ toString l.directories.length)
  Work.printLine ("  Files: " ++ toString l.files.length)
  return true

def removeFile (p : Path) : Work Unit := do
  if ← Work.pathExists p then Work.change fun t => t.removeFile p

def removeDirectory (p : Path) : Work Unit := do
  if ← Work.pathExists p then
    if (← Work.ask (·.list p)).isEmpty then Work.change fun t => t.removeDirectory p

/-- Removes the files of a layout and the directories that are empty then. -/
def remove (l : FileLayout) : Work Bool :=
  Work.orElse (do
    for f in l.files do removeFile f
    for d in l.directories.reverse do removeDirectory d
    return true) false

def toDatum (l : FileLayout) : Datum :=
  .record [("base_path", .path l.base), ("files", .list (l.files.map .path)),
    ("directories", .list (l.directories.map .path)), ("description", .text l.description)]

/-- Which files a source goes to, as a record. -/
def migration (source : Path) (l : FileLayout) : Datum :=
  .record [("original", .text source.text), ("strategy", .text l.description),
    ("base_path", .text l.base.text), ("new_files", .texts (l.files.map Path.text)),
    ("created_dirs", .texts (l.directories.map Path.text))]

end FileLayout
end SuiteTidy
