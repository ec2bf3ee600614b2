import SuiteTidy.Text.Blank
import SuiteTidy.Text.Comment
import SuiteTidy.Text.Lines

/-!
The lines that open a block of a test suite: a group of tests, a test, or a hook that runs around
tests. Whether a line opens a block depends on that line alone.
-/

set_option autoImplicit false
set_option relaxedAutoImplicit false

namespace SuiteTidy.Suite

open SuiteTidy.Text

inductive Hook where
  | beforeEach
  | afterEach
  | beforeAll
  | afterAll
deriving Repr, DecidableEq, Inhabited

def Hook.all : List Hook := [.beforeEach, .afterEach, .beforeAll, .afterAll]

def Hook.name : Hook → String
  | beforeEach => "beforeEach"
  | afterEach => "afterEach"
  | beforeAll => "beforeAll"
  | afterAll => "afterAll"

inductive BlockKind where
  | describe
  | test
  | hook (h : Hook)
deriving Repr, DecidableEq, Inhabited

def BlockKind.word : BlockKind → String
  | describe => "describe"
  | test => "it"
  | hook h => h.name

structure Opening where
  kind : BlockKind
  name : String
deriving Repr, DecidableEq, Inhabited

def commaFollows (cs : List Char) : Bool := (trimLeft cs).head? == some ','

/-- The shortest nonempty text that is followed by a quote and a comma. The accumulator holds what
has been read, in reverse. -/
def labelFrom : List Char → List Char → Option (List Char)
  | _, [] => none
  | [], c :: cs => labelFrom [c] cs
  | acc, c :: cs =>
    if isQuote c && commaFollows cs then some acc.reverse else labelFrom (c :: acc) cs

def label? : List Char → Option (List Char)
  | q :: cs => if isQuote q then labelFrom [] cs else none
  | [] => none

/-- The label of the first call of `word` that has one. -/
def callLabel? (word : List Char) : List Char → Option (List Char)
  | [] => none
  | c :: cs =>
    match (afterStart? (c :: cs) word).bind label? with
    | some name => some name
    | none => callLabel? word cs

def describeName? (line : String) : Option String :=
  (callLabel? "describe(".toList line.toList).map String.ofList

def testName? (line : String) : Option String :=
  (callLabel? "it(".toList line.toList).map String.ofList

/-- The hook whose call stands first in a text. -/
def hookIn? : List Char → Option Hook
  | [] => none
  | c :: cs =>
    match Hook.all.find? fun h => startsWith (c :: cs) (h.name ++ "(").toList with
    | some h => some h
    | none => hookIn? cs

def hook? (line : String) : Option Hook := hookIn? line.toList

def describeOpening? (line : String) : Option Opening :=
  (describeName? line).map fun n => { kind := .describe, name := n }

def testOpening? (line : String) : Option Opening :=
  (testName? line).map fun n => { kind := .test, name := n }

def hookOpening? (line : String) : Option Opening :=
  (hook? line).map fun h => { kind := .hook h, name := h.name }

def isCommentLine (line : String) : Bool := startsWith (trim line.toList) ['/', '/']

/-- What a line opens outside all blocks: a group, else a test, else a hook. A line of comment opens
nothing. -/
def opensAtTop (line : String) : Option Opening :=
  if isCommentLine line then none
  else (describeOpening? line).or ((testOpening? line).or (hookOpening? line))

/-- What a line opens inside a group. The first word that occurs decides what is looked for. -/
def opensInside (line : String) : Option Opening :=
  if hasText line "describe(" then describeOpening? line
  else if hasText line "it(" then testOpening? line
  else hookOpening? line

end SuiteTidy.Suite
