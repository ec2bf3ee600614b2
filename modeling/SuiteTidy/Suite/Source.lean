import SuiteTidy.Datum.Basic
import SuiteTidy.Suite.Block
import SuiteTidy.Suite.Import
import SuiteTidy.Suite.Mock

/-!
A test source as a whole: its imports, mock data, groups, tests and hooks, and how involved it is.
-/

set_option autoImplicit false
set_option relaxedAutoImplicit false

namespace SuiteTidy.Suite

open SuiteTidy.Text

def decisionMarks : List String :=
  ["if ", "else ", "switch ", "for ", "while ", "&&", "||"]

/-- One more than the number of decisions in a text. -/
def cyclomatic (content : String) : Nat :=
  (decisionMarks.map fun m => countOf m.toList content.toList).foldr (· + ·) 0 + 1

structure Outline where
  imports : List Import
  mocks : List Mock
  blocks : List Block
  cyclomatic : Nat
deriving Inhabited, Repr

def outline (content : String) : Outline :=
  let lines := linesOf content
  { imports := imports content
    mocks := mocks lines
    blocks := blocks lines
    cyclomatic := cyclomatic content }

namespace Outline

def importLines (o : Outline) : List String := o.imports.map (·.raw)

def categories (o : Outline) : List String := Suite.categories o.blocks

def testCases (o : Outline) : List String := Suite.testCases o.blocks

/-- The names of the hooks outside all groups. -/
def setupHooks (o : Outline) : List String := hookNames o.blocks

def nestingDepth (o : Outline) : Nat := Suite.nestingDepth o.blocks

end Outline

def sourceEndings : List String := [".spec.ts", ".test.ts", ".spec.tsx", ".test.tsx"]

def isSourceName (name : String) : Bool := sourceEndings.any fun e => endsWith name.toList e.toList

def Import.toDatum (i : Import) : Datum :=
  .record [("raw", .text i.raw), ("imports", .text i.clause), ("source", .text i.source),
    ("is_type_import", .bool i.isTypeOnly), ("line_number", .nat i.line)]

def Mock.toDatum (m : Mock) : Datum :=
  .record [("name", .text m.name), ("content", .text m.content), ("type", .text m.kind.word),
    ("complexity", .nat m.complexity), ("start_line", .nat m.start), ("end_line", .nat m.stop)]

/-- What is known of a block beside its text: the place of a group, the expectations of a test. -/
def Block.metadata (b : Block) : List (String × Datum) :=
  match b.kind with
  | .describe => [("indentation", .nat b.indentation), ("is_nested", .bool b.isIndented)]
  | .test =>
    [("expect_count", .nat b.expectations), ("has_async", .bool b.isAsync),
      ("line_count", .nat b.lineCount)]
  | .hook _ => []

mutual
def Block.toDatum : Block → Datum
  | ⟨opening, start, stop, content, children⟩ =>
    .record [("type", .text opening.kind.word), ("name", .text opening.name),
      ("start_line", .nat start), ("end_line", .nat stop), ("content", .text content),
      ("children", .list (blockData children)),
      ("metadata", .record (Block.metadata ⟨opening, start, stop, content, []⟩))]

def blockData : List Block → List Datum
  | [] => []
  | b :: bs => b.toDatum :: blockData bs
end

def Outline.toDatum (o : Outline) : Datum :=
  .record [("imports", .texts o.importLines), ("mock_data", .list (o.mocks.map Mock.toDatum)),
    ("categories", .texts o.categories), ("test_cases", .texts o.testCases),
    ("setup_hooks", .texts o.setupHooks),
    ("complexity_metrics", .record [("cyclomatic_complexity", .nat o.cyclomatic),
      ("max_nesting_depth", .nat o.nestingDepth), ("total_blocks", .nat o.blocks.length)])]

end SuiteTidy.Suite
