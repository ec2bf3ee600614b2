import SuiteTidy.Text.Blank
import SuiteTidy.Text.Comment
import SuiteTidy.Text.Lines

/-!
Import statements of a source text. A line is an import when, without the blanks around it, it reads
`import`, what is imported, `from`, and a source in quotes.
-/

set_option autoImplicit false
set_option relaxedAutoImplicit false

namespace SuiteTidy.Suite

open SuiteTidy.Text

/-- An import statement: the whole line, what is imported, the source, and the number of the
line. -/
structure Import where
  raw : String
  clause : String
  source : String
  line : Nat
deriving Repr, DecidableEq, Inhabited

def Import.isTypeOnly (i : Import) : Bool := hasText i.clause "type"

def afterBlanks? : List Char → Option (List Char)
  | c :: cs => if isBlank c then some (trimLeft cs) else none
  | [] => none

/-- The shortest nonempty text before a quote. The accumulator holds what has been read, in
reverse. -/
def quotedTail : List Char → List Char → Option (List Char)
  | _, [] => none
  | [], c :: cs => quotedTail [c] cs
  | acc, c :: cs => if isQuote c then some acc.reverse else quotedTail (c :: acc) cs

def fromSource? (cs : List Char) : Option (List Char) := do
  let rest ← afterBlanks? cs
  let rest ← afterStart? rest "from".toList
  match ← afterBlanks? rest with
  | q :: body => if isQuote q then quotedTail [] body else none
  | [] => none

/-- The shortest nonempty clause that is followed by a source. The accumulator holds what has been
read, in reverse. -/
def clauseFrom : List Char → List Char → Option (List Char × List Char)
  | _, [] => none
  | [], c :: cs => clauseFrom [c] cs
  | acc, c :: cs =>
    match fromSource? (c :: cs) with
    | some source => some (acc.reverse, source)
    | none => clauseFrom (c :: acc) cs

/-- Tries the clause after all the leading blanks, then after one blank less, and so on; `passed`
holds the blanks that were passed over, the last of them first. -/
def clauseAfter : List Char → List Char → Option (List Char × List Char)
  | [], _ => none
  | b :: passed, cs =>
    match clauseFrom [] cs with
    | some found => some found
    | none => clauseAfter passed (b :: cs)

def importParts? (cs : List Char) : Option (List Char × List Char) := do
  let rest ← afterStart? cs "import".toList
  clauseAfter (rest.takeWhile isBlank).reverse (trimLeft rest)

def importOn? (number : Nat) (line : String) : Option Import :=
  let cs := trim line.toList
  (importParts? cs).map fun (clause, source) =>
    { raw := String.ofList cs, clause := String.ofList clause, source := String.ofList source,
      line := number }

def imports (content : String) : List Import :=
  (linesOf content).zipIdx.filterMap fun (line, i) => importOn? i line

def bracedTail : List Char → List Char → Option (List Char)
  | _, [] => none
  | [], c :: cs => if c = '\n' then none else bracedTail [c] cs
  | acc, c :: cs =>
    if c = '\x7d' then some acc.reverse
    else if c = '\n' then none
    else bracedTail (c :: acc) cs

def braced? : List Char → Option (List Char)
  | [] => none
  | c :: cs =>
    match if c = '\x7b' then bracedTail [] cs else none with
    | some found => some found
    | none => braced? cs

/-- What stands before the first occurrence of `p`. -/
def beforeText (p : List Char) : List Char → List Char
  | [] => []
  | c :: cs => if startsWith (c :: cs) p then [] else c :: beforeText p cs

/-- The names that a clause imports: the clause itself if it has no brace, else the names between
the braces, each without what it is renamed to. -/
def importedNames (clause : String) : List String :=
  let cs := clause.toList
  if !cs.contains '\x7b' then [trimmed clause]
  else match braced? cs with
    | none => []
    | some body =>
      (body.splitOn ',').map fun name =>
        String.ofList (trim (beforeText " as ".toList (trim name)))

inductive ImportGroup where
  | internal
  | external
  | testTools
  | types
deriving Repr, DecidableEq

def ImportGroup.all : List ImportGroup := [.internal, .external, .testTools, .types]

def ImportGroup.name : ImportGroup → String
  | internal => "internal"
  | external => "external"
  | testTools => "test_utils"
  | types => "types"

/-- The group of an import: types first, then sources that start with a dot, then sources that speak
of tests or mocks. -/
def Import.group (i : Import) : ImportGroup :=
  if i.isTypeOnly then .types
  else if startsWith i.source.toList ['.'] then .internal
  else if hasText i.source "test" || hasText i.source "mock" then .testTools
  else .external

def linesOfGroup (is : List Import) (g : ImportGroup) : List Nat :=
  (is.filter (·.group == g)).map (·.line)

end SuiteTidy.Suite
