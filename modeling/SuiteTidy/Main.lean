import Std.Time.DateTime.Timestamp
import SuiteTidy.Command.Line

/-!
The program: reads the files of the current directory, does what the command line asks for, writes
back what has changed, and prints what was shown.
-/

set_option autoImplicit false
set_option relaxedAutoImplicit false

namespace SuiteTidy.Main

partial def readBelow (place : Place) : IO (List (Place × Entry)) := do
  let here := System.mkFilePath ("." :: place)
  let mut found := []
  for e in ← here.readDir do
    let inside := place ++ [e.fileName]
    if ← e.path.isDir then
      found := found ++ (inside, Entry.directory) :: (← readBelow inside)
    else
      found := found ++ [(inside, .file (.bytes (← IO.FS.readBinFile e.path)))]
  return found

def readTree : IO FileTree := do
  let entries ← readBelow []
  return { entries := entries.mergeSort fun a b => !FileTree.placeBefore b.1 a.1 }

def isUnchanged (t : FileTree) (place : Place) (e : Entry) : Bool :=
  match e, t.lookup place with
  | .directory, some .directory => true
  | .file (.bytes a), some (.file (.bytes b)) => a == b
  | _, _ => false

/-- Writes the entries of a tree that another does not have, and removes the files that only the
other has. -/
def writeChanges (old new : FileTree) : IO Unit := do
  for (place, e) in new.entries do
    if !isUnchanged old place e then
      let path := System.mkFilePath ("." :: place)
      match e with
      | .directory => IO.FS.createDirAll path
      | .file (.bytes b) => IO.FS.writeBinFile path b
      | .file (.packed _) => pure ()
  for (place, e) in old.entries do
    if !e.isDirectory && (new.lookup place).isNone then
      IO.FS.removeFile (System.mkFilePath ("." :: place))

def linesOfShown : Shown → List String
  | .text words => [words.getD ""]
  | .panel words _ => [words]
  | .table t =>
    let row (cells : List String) : String := " | ".intercalate cells
    t.title :: (if t.showHeader then [row (t.columns.map (·.1))] else []) ++ t.rows.map row

partial def readAnswers (input : IO.FS.Stream) : IO String := do
  let line ← input.getLine
  if line.isEmpty then return "" else return line ++ (← readAnswers input)

def now : IO Moment := do
  let t ← Std.Time.Timestamp.now
  let seconds : Int := t.toSecondsSinceUnixEpoch.val
  return (Moment.ofFields 1970 1 1 0 0 0 0 none).later (seconds * Moment.perSecond)

end SuiteTidy.Main

open SuiteTidy in
def main (args : List String) : IO UInt32 := do
  let files ← Main.readTree
  let answers ← if Command.mayAsk args then Main.readAnswers (← IO.getStdin) else pure ""
  let (outcome, after) :=
    Command.runLine args { files, now := ← Main.now, input := answers.toList }
  Main.writeChanges files after.files
  for s in after.shown do
    for line in Main.linesOfShown s do IO.println line
  IO.print after.printed
  match outcome with
  | .ok () => return 0
  | .error f =>
    IO.eprintln f.message
    return (((Command.exitCode? f).getD 1).toUInt32)
