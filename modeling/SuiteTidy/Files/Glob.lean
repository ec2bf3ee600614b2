import SuiteTidy.Files.Tree

/-!
Patterns for file names: a star stands for any text, a question mark for one character, and brackets
for one character of a set. A pattern of several names leads through directories.
-/

set_option autoImplicit false
set_option relaxedAutoImplicit false

namespace SuiteTidy.Glob

inductive Token where
  | star
  | one
  | literal (c : Char)
  | set (negated : Bool) (ranges : List (Char × Char))
deriving Repr, DecidableEq, Inhabited

/-- The ranges in the brackets of a set. A range whose ends are in the wrong order is empty. -/
def rangesOf : List Char → List (Char × Char)
  | lo :: '-' :: hi :: rest => (lo, hi) :: rangesOf rest
  | c :: rest => (c, c) :: rangesOf rest
  | [] => []

/-- The body of a set that starts after its bracket, and the rest of the pattern. A closing bracket
in first place belongs to the set. -/
def setBody (cs : List Char) : Option (List Char × List Char) :=
  let (mark, cs) := match cs with
    | '!' :: rest => (['!'], rest)
    | cs => ([], cs)
  let (first, cs) := match cs with
    | ']' :: rest => ([']'], rest)
    | cs => ([], cs)
  let body := cs.takeWhile (· ≠ ']')
  if body.length < cs.length then some (mark ++ first ++ body, cs.drop (body.length + 1)) else none

def setOf : List Char → Token
  | '!' :: rest => .set true (rangesOf rest)
  | body => .set false (rangesOf body)

/-- The tokens of a pattern; `skip` counts the characters of a set that are still to be passed. -/
def tokensFrom : Nat → List Char → List Token
  | _, [] => []
  | skip + 1, _ :: cs => tokensFrom skip cs
  | 0, c :: cs =>
    if c = '*' then .star :: tokensFrom 0 cs
    else if c = '?' then .one :: tokensFrom 0 cs
    else if c = '[' then
      match setBody cs with
      | some (body, _) => setOf body :: tokensFrom (body.length + 1) cs
      | none => .literal '[' :: tokensFrom 0 cs
    else .literal c :: tokensFrom 0 cs

def tokens (pattern : String) : List Token := tokensFrom 0 pattern.toList

def suffixes : List Char → List (List Char)
  | [] => [[]]
  | c :: cs => (c :: cs) :: suffixes cs

def inSet (negated : Bool) (ranges : List (Char × Char)) (c : Char) : Bool :=
  (ranges.any fun (lo, hi) => lo ≤ c && c ≤ hi) != negated

def matchTokens : List Token → List Char → Bool
  | [], cs => cs.isEmpty
  | .star :: ts, cs => (suffixes cs).any (matchTokens ts)
  | .one :: ts, _ :: cs => matchTokens ts cs
  | .literal x :: ts, c :: cs => c == x && matchTokens ts cs
  | .set negated ranges :: ts, c :: cs => inSet negated ranges c && matchTokens ts cs
  | _ :: _, [] => false

def fits (pattern name : String) : Bool := matchTokens (tokens pattern) name.toList

inductive Step where
  | anyDepth
  | wildcard (pattern : String)
  | name (s : String)
  | stop
deriving Repr, DecidableEq, Inhabited

inductive PatternFault where
  | absolute
  | doubleStar
deriving Repr, DecidableEq

def PatternFault.message : PatternFault → String
  | absolute => "Non-relative patterns are unsupported"
  | doubleStar => "Invalid pattern: '**' can only be an entire path component"

def stepOf (part : String) : Except PatternFault Step :=
  if part = "**" then .ok .anyDepth
  else if hasText part "**" then .error .doubleStar
  else if part.toList.any fun c => c = '*' || c = '?' || c = '[' then .ok (.wildcard part)
  else .ok (.name part)

/-- The steps of a path pattern. A slash at the end asks for nothing more. -/
def stepsOf (pattern : String) : Except PatternFault (List Step) := do
  let p := Path.ofString pattern
  if p.absolute then .error .absolute
  let steps ← p.parts.mapM stepOf
  return if pattern.toList.getLast? = some '/' then steps ++ [.stop] else steps

/-- The directory at a path and all below it; each stands before those inside it. The directory for
temporary files is there without being listed. -/
def directories (t : FileTree) (p : Path) : Except FileFault (List Path) := do
  let place ← t.locate p
  let temporary := if place = ["/"] then [{ p with parts := p.parts ++ ["tmp"] }] else []
  let inside := t.entries.filterMap fun (k, e) =>
    if e.isDirectory && FileTree.isBelow place k then
      some { p with parts := p.parts ++ k.drop place.length }
    else none
  return p :: (temporary ++ inside)

def namesIn (t : FileTree) (p : Path) : List String :=
  match t.list p with
  | .ok names => names
  | .error _ => []

def child (p : Path) (name : String) : Path := { p with parts := p.parts ++ [name] }

def select (t : FileTree) : List Step → Path → Except FileFault (List Path)
  | [], p => .ok [p]
  | .stop :: _, p => .ok [p]
  | .name s :: rest, p => do
    let q := child p s
    if ← (if rest.isEmpty then t.exists_ q else t.isDir q) then select t rest q else return []
  | .wildcard pattern :: rest, p => do
    let found := ((namesIn t p).filter (fits pattern)).map (child p)
    let here ← if rest.isEmpty then pure found else found.filterM t.isDir
    return (← here.mapM (select t rest)).flatten
  | .anyDepth :: rest, p => do
    return ((← (← directories t p).mapM (select t rest)).flatten).eraseDups

/-- The paths below a directory that fit a pattern at any depth. -/
def findBelow (t : FileTree) (root : Path) (steps : List Step) : Except FileFault (List Path) := do
  if ← t.isDir root then select t (.anyDepth :: steps) root else return []

end SuiteTidy.Glob
