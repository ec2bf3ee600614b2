import SuiteTidy.Suite.Opening

/-!
The blocks of a test suite. A block runs from the line that opens it to the first line on which as
many braces have been closed as opened, or to the end of the text. The lines inside a group are
searched for blocks again.
-/

set_option autoImplicit false
set_option relaxedAutoImplicit false

namespace SuiteTidy.Suite

open SuiteTidy.Text

/-- A block: what opened it, its first and last line, its text and the blocks inside it. -/
structure Block where
  opening : Opening
  start : Nat
  stop : Nat
  content : String
  children : List Block
deriving Inhabited, Repr

def opens (line : String) : Nat := line.toList.count '\x7b'

def closes (line : String) : Nat := line.toList.count '\x7d'

/-- How many lines after the first a block ends, given the balance of braces before these lines and
whether any brace was opened there. -/
def spanFrom : Int → Bool → List String → Nat
  | _, _, [] => 0
  | _, _, [_] => 0
  | balance, opened, line :: rest =>
    let balance := balance + opens line - closes line
    let opened := opened || decide (0 < opens line)
    if opened && balance == 0 then 0 else spanFrom balance opened rest + 1

def span (lines : List String) : Nat := spanFrom 0 false lines

/-- The blocks that `rule` finds in the first `budget` lines, the first of which has number `at_`. A
block may reach beyond those lines. Inside a group the search is for what a line opens there. -/
def blocksIn (rule : String → Option Opening) (budget at_ : Nat) : List String → List Block
  | [] => []
  | line :: rest =>
    match budget with
    | 0 => []
    | budget + 1 =>
      match rule line with
      | none => blocksIn rule budget (at_ + 1) rest
      | some opening =>
        let length := span (line :: rest)
        { opening
          start := at_
          stop := at_ + length
          content := unlines ((line :: rest).take (length + 1))
          children :=
            if opening.kind = .describe then blocksIn opensInside (length - 1) (at_ + 1) rest
            else [] } ::
          blocksIn rule (budget - length) (at_ + length + 1) (rest.drop length)
termination_by lines => lines.length

def blocks (lines : List String) : List Block := blocksIn opensAtTop lines.length 0 lines

namespace Block

def kind (b : Block) : BlockKind := b.opening.kind

def name (b : Block) : String := b.opening.name

def firstLine (b : Block) : String := (linesOf b.content).headD ""

def indentation (b : Block) : Nat :=
  b.firstLine.toList.length - (trimLeft b.firstLine.toList).length

/-- Whether the line that opens a block starts with a space. -/
def isIndented (b : Block) : Bool := b.firstLine.toList.head? == some ' '

def expectations (b : Block) : Nat := countOf "expect(".toList b.content.toList

def isAsync (b : Block) : Bool := hasText b.firstLine "async" || hasText b.content "await"

def lineCount (b : Block) : Nat := b.stop - b.start + 1

end Block

mutual
/-- The names of the groups that are indented, each before those inside it. -/
def categoriesOf : Block → List String
  | ⟨opening, start, stop, content, children⟩ =>
    let here : Block := ⟨opening, start, stop, content, []⟩
    if opening.kind = .describe then
      (if here.isIndented then [opening.name] else []) ++ categories children
    else []

def categories : List Block → List String
  | [] => []
  | b :: bs => categoriesOf b ++ categories bs
end

mutual
def testCasesOf : Block → List String
  | ⟨opening, _, _, _, children⟩ =>
    if opening.kind = .test then [opening.name] else testCases children

def testCases : List Block → List String
  | [] => []
  | b :: bs => testCasesOf b ++ testCases bs
end

mutual
def depthOf : Block → Nat
  | ⟨_, _, _, _, children⟩ => depthBelow children

/-- One more than the depth of the deepest of the blocks; zero if there is none. -/
def depthBelow : List Block → Nat
  | [] => 0
  | b :: bs => max (depthOf b + 1) (depthBelow bs)
end

def nestingDepth (bs : List Block) : Nat := depthBelow bs - 1

def hookNames (bs : List Block) : List String :=
  bs.filterMap fun b =>
    match b.kind with
    | .hook h => some h.name
    | _ => none

end SuiteTidy.Suite
