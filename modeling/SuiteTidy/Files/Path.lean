import SuiteTidy.Text.Lines

/-!
Paths of files and directories. A path is kept in normal form: repeated slashes and single dots are
gone, double dots stay.
-/

set_option autoImplicit false
set_option relaxedAutoImplicit false

namespace SuiteTidy

/-- A path: whether it starts at the top of the file system, and its components. -/
structure Path where
  absolute : Bool := false
  parts : List String := []
deriving Repr, DecidableEq, Inhabited

namespace Path

/-- Reads a path, dropping empty components and single dots. -/
def ofString (s : String) : Path :=
  let pieces := (s.toList.splitOn '/').map String.ofList
  { absolute := s.toList.head? == some '/'
    parts := pieces.filter fun p => p != "" && p != "." }

/-- A text as part of a file name: every slash and backslash becomes an underscore. -/
def flatName (s : String) : String :=
  String.ofList (s.toList.map fun c => if c = '/' || c = '\\' then '_' else c)

/-- The text of a path. The empty path is a single dot. -/
def text (p : Path) : String :=
  let body := "/".intercalate p.parts
  if p.absolute then "/" ++ body else if p.parts.isEmpty then "." else body

def name (p : Path) : String := p.parts.getLast?.getD ""

def parent (p : Path) : Path := { p with parts := p.parts.dropLast }

/-- A path below another; an absolute one stands for itself. -/
def join (p q : Path) : Path := if q.absolute then q else { p with parts := p.parts ++ q.parts }

def below (p : Path) (s : String) : Path := p.join (ofString s)

/-- Splits a name at its last dot, unless the dot is the first or the last character. -/
def splitName (name : String) : String × String :=
  let cs := name.toList
  let tail := (cs.reverse.takeWhile (· != '.')).reverse
  let dotAt := cs.length - tail.length
  if 1 < dotAt ∧ dotAt < cs.length then
    (String.ofList (cs.take (dotAt - 1)), String.ofList (cs.drop (dotAt - 1)))
  else (name, "")

def stem (p : Path) : String := (splitName p.name).1

def suffix (p : Path) : String := (splitName p.name).2

/-- The components, with a slash in front for a path from the top. -/
def components (p : Path) : List String := if p.absolute then "/" :: p.parts else p.parts

def relativeTo? (p base : Path) : Option Path :=
  if p.absolute == base.absolute && base.parts.isPrefixOf p.parts then
    some { parts := p.parts.drop base.parts.length }
  else none

end Path
end SuiteTidy
