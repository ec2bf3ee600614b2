import SuiteTidy.Datum.Basic
import SuiteTidy.Suite.Import
import SuiteTidy.Text.Case
import SuiteTidy.Text.Word

/-!
Lists of import statements: sorting them into groups, leaving out those that are not used, and
merging those with one source. A statement is a text; nothing is asked of its form.
-/

set_option autoImplicit false
set_option relaxedAutoImplicit false

namespace SuiteTidy

open SuiteTidy.Text

structure OrganizedImports where
  external : List String
  internal : List String
  types : List String
  testTools : List String
deriving Repr, DecidableEq, Inhabited

namespace ImportList

/-- Names of packages by which a statement counts as external. -/
def packages : List String :=
  ["@nestjs", "@angular", "react", "vue", "lodash", "axios", "rxjs", "moment", "date-fns"]

def testWords : List String := ["test", "mock", "stub"]

/-- The group of a statement: types first, then tools for tests, then external packages. -/
def groupOf (statement : String) : Suite.ImportGroup :=
  if hasText (lowered statement) "type" then .types
  else if testWords.any (hasText statement) then .testTools
  else if packages.any (hasText statement) then .external
  else .internal

/-- Statements in the order of their lower-case texts; equal ones keep their order. -/
def sorted (statements : List String) : List String :=
  statements.mergeSort fun a b => lowered a ≤ lowered b

def inGroup (g : Suite.ImportGroup) (statements : List String) : List String :=
  sorted (statements.filter fun s => groupOf s == g)

def organize (statements : List String) : OrganizedImports :=
  { external := inGroup .external statements
    internal := inGroup .internal statements
    types := inGroup .types statements
    testTools := inGroup .testTools statements }

/-- The text in the first pair of braces that holds anything. -/
def braced? : List Char → Option (List Char)
  | [] => none
  | c :: cs =>
    if c = '\x7b' && cs.head? != some '\x7d' then
      let body := cs.takeWhile (· ≠ '\x7d')
      if body.length < cs.length then some body else none
    else braced? cs

def defaultName? (cs : List Char) : Option (List Char) := do
  let rest ← afterStart? cs "import".toList
  let name := (← Suite.afterBlanks? rest).takeWhile isWord
  if name.isEmpty then none else some name

/-- The names that a statement imports: those in braces, each without what it is renamed to, or else
the word after `import`. -/
def names (statement : String) : List String :=
  let cs := statement.toList
  match braced? cs with
  | some body =>
    (body.splitOn ',').map fun name => String.ofList (Suite.beforeText " as ".toList (trim name))
  | none => (defaultName? cs).toList.map String.ofList

def sourceAfter? (cs : List Char) : Option (List Char) := do
  match ← Suite.afterBlanks? cs with
  | q :: rest =>
    let body := rest.takeWhile fun c => !isQuote c
    if isQuote q && !body.isEmpty && decide (body.length < rest.length) then some body else none
  | [] => none

/-- The source in quotes after the first `from` that has one. -/
def sourceIn? : List Char → Option (List Char)
  | [] => none
  | c :: cs =>
    match (afterStart? (c :: cs) "from".toList).bind sourceAfter? with
    | some source => some source
    | none => sourceIn? cs

def source (statement : String) : String := String.ofList ((sourceIn? statement.toList).getD [])

def used (statements : List String) (content : String) : List String :=
  statements.filter fun s => (names s).any (hasText content)

/-- The sources with the names from each, in the order of first appearance; each name once. -/
def addNames (source : String) (more : List String) :
    List (String × List String) → List (String × List String)
  | [] => [(source, more.eraseDups)]
  | (s, ns) :: rest =>
    if s = source then (s, (ns ++ more).eraseDups) :: rest else (s, ns) :: addNames source more rest

def bySource (statements : List String) : List (String × List String) :=
  statements.foldl (fun found s => addNames (source s) (names s) found) []

/-- A statement that imports names from a source: a single name stands by itself, others in braces
and in order. -/
def statement (source : String) (ns : List String) : String :=
  let tail := " from '" ++ source ++ "';"
  match ns with
  | [n] => "import " ++ n ++ tail
  | _ => "import \x7b " ++ ", ".intercalate (ns.mergeSort fun a b => a ≤ b) ++ " \x7d" ++ tail

def merged (statements : List String) : List String :=
  (bySource statements).map fun (s, ns) => statement s ns

end ImportList

namespace OrganizedImports

/-- The groups as a block of lines: external, types, internal and test tools, with an empty line
between groups. -/
def block (o : OrganizedImports) : String :=
  "\n\n".intercalate
    (([o.external, o.types, o.internal, o.testTools].filter (!·.isEmpty)).map unlines)

def toDatum (o : OrganizedImports) : Datum :=
  .record [("external", .texts o.external), ("internal", .texts o.internal),
    ("types", .texts o.types), ("test_utils", .texts o.testTools)]

end OrganizedImports
end SuiteTidy
