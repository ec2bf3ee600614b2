import SuiteTidy.Files.Reference
import SuiteTidy.Workspace

/-!
File operations that never fail but report: each prints what went wrong and says whether it worked.
Before a file is overwritten a copy of it can be kept under a name with the time in it.
-/

set_option autoImplicit false
set_option relaxedAutoImplicit false

namespace SuiteTidy.SafeFile

/-- Does some work; a fault is printed after some words, and the result is `other`. -/
def reporting {α : Type} (words : String) (other : α) (w : Work α) : Work α := do
  match ← Work.attempt w with
  | .ok a => return a
  | .error f =>
    Work.printLine ("DEBUG FileUtils: " ++ words ++ ": " ++ f.message)
    return other

def ensureDirectory (p : Path) : Work Bool :=
  reporting ("Failed to create directory " ++ p.text) false do
    Work.makeDirectories p
    return true

def backupPath (p : Path) (now : Moment) : Path :=
  p.parent.below (p.stem ++ "_" ++ now.stamp ++ p.suffix)

def backup (p : Path) : Work Bool :=
  reporting ("Backup failed for " ++ p.text) false do
    if ← Work.pathExists p then
      Work.copyFile p (backupPath p (← Work.now))
      return true
    else return false

def pathOf : Option FileRef → Except Fault Path
  | some (.path p) => .ok p
  | some (.plain s) => .ok (.ofString s)
  | none => .error (.datum (.notPathLike "NoneType"))

/-- Writes a text to a file, with a copy of the old file if that is asked for. -/
def write (target : Option FileRef) (content : String) (withBackup : Bool) : Work Bool := do
  match pathOf target with
  | .error f => reporting ("Failed to write " ++ FileRef.textOf target) false (throw f)
  | .ok p =>
    reporting ("Failed to write " ++ p.text) false do
      let _ ← ensureDirectory p.parent
      if (← Work.pathExists p) && withBackup then let _ ← backup p
      Work.writeText p content
      Work.printLine ("DEBUG FileUtils: Successfully wrote " ++ toString content.length ++
        " bytes to " ++ p.text)
      return true

def read (p : Path) : Work String :=
  reporting ("Failed to read " ++ p.text) "" (Work.readText p)

end SuiteTidy.SafeFile
