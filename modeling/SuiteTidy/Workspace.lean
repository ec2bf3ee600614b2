import SuiteTidy.Console
import SuiteTidy.Fault
import SuiteTidy.Files.Tree

/-!
The surroundings in which the tool works: its files, the clock, the identifiers that it has given
out, what it has printed and shown, and what it can still read. Work is a step in such surroundings.
What was done before a failure stays done.
-/

set_option autoImplicit false
set_option relaxedAutoImplicit false

namespace SuiteTidy

/-- The files of the tool, the time, the number of identifiers given out, the text printed so far,
the things shown on the console so far, and the answers that can still be read. -/
structure Workspace where
  files : FileTree := {}
  now : Moment
  issued : Nat := 0
  printed : String := ""
  shown : List Shown := []
  input : List Char := []
deriving Inhabited

/-- A step in a workspace that gives a result or a fault. -/
abbrev Work (α : Type) : Type := ExceptT Fault (StateM Workspace) α

namespace Work

def lift {α : Type} {ε : Type} (embed : ε → Fault) (r : Except ε α) : Work α :=
  match r with
  | .ok a => pure a
  | .error e => throw (embed e)

def files : Work FileTree := do return (← get).files

def now : Work Moment := do return (← get).now

def ask {α : Type} (question : FileTree → Except FileFault α) : Work α := do
  lift Fault.file (question (← files))

def change (step : FileTree → Except FileFault FileTree) : Work Unit := do
  match step (← files) with
  | .ok t => modify fun w => { w with files := t }
  | .error e => throw (.file e)

def printLine (s : String) : Work Unit :=
  modify fun w => { w with printed := w.printed ++ s ++ "\n" }

def printText (s : String) : Work Unit := modify fun w => { w with printed := w.printed ++ s }

def present (s : Shown) : Work Unit := modify fun w => { w with shown := w.shown ++ [s] }

def say (s : String) : Work Unit := present (.text (some s))

/-- Reads a line without its end; nothing at the end of the input. -/
def readLine? : Work (Option String) := do
  let w ← get
  if w.input.isEmpty then return none
  let line := w.input.takeWhile (· != '\n')
  set { w with input := w.input.drop (line.length + 1) }
  return some (String.ofList line)

def attempt {α : Type} (t : Work α) : Work (Except Fault α) := fun w =>
  match t w with
  | (r, w') => (.ok r, w')

/-- Does some work; any fault gives the result `other`. -/
def orElse {α : Type} (t : Work α) (other : α) : Work α := do
  match ← attempt t with
  | .ok a => return a
  | .error _ => return other

def makeDirectory (p : Path) : Work Unit := change fun t => t.makeDirectory p

/-- Makes a directory, and before it those above it that are missing: the first `n` components of a
path. A directory that is there already is left alone. -/
def makeDirectoriesTo (p : Path) : Nat → Work Unit
  | 0 => settle { p with parts := [] }
  | n + 1 => do
    let here : Path := { p with parts := p.parts.take (n + 1) }
    match ← attempt (makeDirectory here) with
    | .ok () => return
    | .error (.file (.missing _)) =>
      makeDirectoriesTo p n
      settle here
    | .error e => unless ← ask (·.isDir here) do throw e
where
  /-- Makes a directory unless it is there. -/
  settle (here : Path) : Work Unit := do
    match ← attempt (makeDirectory here) with
    | .ok () => return
    | .error (.file (.missing q)) => throw (.file (.missing q))
    | .error e => unless ← ask (·.isDir here) do throw e

def makeDirectories (p : Path) : Work Unit := makeDirectoriesTo p p.parts.length

def writeText (p : Path) (s : String) : Work Unit := change fun t => t.writeText p s

def readText (p : Path) : Work String := ask (·.readText p)

def pathExists (p : Path) : Work Bool := ask (·.exists_ p)

/-- Copies a file. A copy to a directory keeps the name of the file. -/
def copyFile (source target : Path) : Work Unit := do
  let target := if ← ask (·.isDir target) then target.below source.name else target
  let content ← ask (·.readContent source)
  change fun t => t.writeContent target content

end Work
end SuiteTidy
