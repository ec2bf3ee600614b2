import SuiteTidy.Files.Reference
import SuiteTidy.Files.Tree
import SuiteTidy.Text.Case

/-!
Rules that files have to keep. Each check asks a tree of files and says which rule is broken first.
-/

set_option autoImplicit false
set_option relaxedAutoImplicit false

namespace SuiteTidy.FileCheck

def extensions : List String := [".ts", ".tsx", ".js", ".jsx"]

def testWords : List String := ["spec", "test"]

/-- The largest size of a file in units of 1024 times 1024 bytes. -/
def sizeLimit : Nat := 10

def broken {α : Type} (rule : String) (p : Path) (more : List (String × Datum)) : Except Fault α :=
  .error (.invalid rule (("path", .text p.text) :: more))

def ask {α : Type} (r : Except FileFault α) : Except Fault α := r.mapError .file

/-- The reference must be a path that leads to something. -/
def path (t : FileTree) (r : Option FileRef) : Except Fault Path := do
  match r with
  | some (.path p) =>
    if ← ask (t.exists_ p) then return p else broken "Path does not exist" p []
  | some (.plain _) => wrongKind "str"
  | none => wrongKind "NoneType"
where
  /-- The reference is of another kind. -/
  wrongKind (kind : String) : Except Fault Path :=
    .error (.invalid "Invalid path type" [("expected", .text "Path"), ("got", .text kind)])

def file (t : FileTree) (r : Option FileRef) : Except Fault Path := do
  let p ← path t r
  if ← ask (t.isFile p) then return p else broken "Path is not a file" p []

def directory (t : FileTree) (r : Option FileRef) : Except Fault Path := do
  let p ← path t r
  if ← ask (t.isDir p) then return p else broken "Path is not a directory" p []

def isTestName (name : String) : Bool := testWords.any (hasText (lowered name))

def testFile (t : FileTree) (r : Option FileRef) : Except Fault Path := do
  let p ← file t r
  if !extensions.contains p.suffix then
    broken "Invalid file extension" p
      [("extension", .text p.suffix), ("allowed", .texts extensions)]
  else if !isTestName p.name then
    broken "File is not a test file" p [("patterns", .texts testWords)]
  else return p

def fileSize (t : FileTree) (r : Option FileRef) : Except Fault Path := do
  let p ← file t r
  let size := (← ask (t.readContent p)).size
  let mb ← ((Number.int size).dividedBy (.int (1024 * 1024))).mapError .number
  if (Number.int sizeLimit).less mb then
    let shown ← (mb.round 2).mapError .number
    broken "File size exceeds limit" p [("size_mb", .ofNumber shown), ("max_mb", .nat sizeLimit)]
  else return p

/-- A file must be there, or there must be a directory for it. -/
def writable (t : FileTree) (r : Option FileRef) : Except Fault Unit := do
  let p ← FileRef.asPath "exists" r
  if ← ask (t.exists_ p) then
    if ← ask (t.isFile p) then return
    else broken "Path exists but is not a file" p []
  else
    let above := p.parent
    if !(← ask (t.exists_ above)) then
      broken "Parent directory does not exist" p [("parent", .text above.text)]
    else if !(← ask (t.isDir above)) then
      .error (.invalid "Parent path is not a directory" [("parent", .text above.text)])
    else return

/-- The paths that are test files of a good size. A fault of the file system ends the search. -/
def batch (t : FileTree) : List Path → Except Fault (List Path)
  | [] => .ok []
  | p :: ps => do
    match (do let _ ← testFile t (some (.path p)); fileSize t (some (.path p))) with
    | .ok _ => return p :: (← batch t ps)
    | .error (.invalid _ _) => batch t ps
    | .error f => .error f

end SuiteTidy.FileCheck
