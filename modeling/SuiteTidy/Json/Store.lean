import SuiteTidy.Json.Printer
import SuiteTidy.Json.Reader
import SuiteTidy.Workspace

/-!
JSON documents in files.
-/

set_option autoImplicit false
set_option relaxedAutoImplicit false

namespace SuiteTidy.Json

/-- Writes a value to a file, making the directories above it, and says whether it worked. The file
is emptied first, so a value without a JSON form leaves there what could be written of it. -/
def save (d : Datum) (p : Path) : Work Bool :=
  Work.orElse (do
    Work.makeDirectories p.parent
    let w := render .readable d
    Work.writeText p w.text
    match w.fault with
    | some f => throw (.json f)
    | none => return true) false

/-- Reads the value in a file; nothing if there is no file, or no document in it. -/
def load (p : Path) : Work Datum := do
  if ← Work.pathExists p then
    Work.orElse (do Work.lift .json (read (← Work.readText p))) .null
  else return .null

def loadStrict (p : Path) : Work Datum := do Work.lift .json (read (← Work.readText p))

/-- Writes a value in one of the layouts to a file. Nothing is written of a value without a JSON
form. -/
def store (layout : Layout) (d : Datum) (p : Path) : Work Unit := do
  Work.writeText p (← Work.lift .json (text layout d))

end SuiteTidy.Json
