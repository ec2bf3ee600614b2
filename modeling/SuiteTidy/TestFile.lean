import SuiteTidy.Metrics.Quality

/-!
A test file as the tool knows it: where it is, what it holds, and how it has been judged.
-/

set_option autoImplicit false
set_option relaxedAutoImplicit false

namespace SuiteTidy

structure FileFacts where
  path : Path
  relativePath : Path
  module : String
  sizeBytes : Int
  totalLines : Int
  codeLines : Int
  commentLines : Int
  blankLines : Int
  lastModified : Moment
deriving Repr, Inhabited

namespace FileFacts

def sizeKb (f : FileFacts) : Number.Result Number := (Number.int f.sizeBytes).dividedBy (.int 1024)

def codeDensity (f : FileFacts) : Number.Result Number :=
  if f.totalLines = 0 then .ok (.real 0.0)
  else (Number.int f.codeLines).dividedBy (.int f.totalLines)

/-- The facts as a record. The time of the last change is a text there. -/
def toDatum (f : FileFacts) : Datum :=
  .record [("path", .path f.path), ("relative_path", .path f.relativePath),
    ("module", .text f.module), ("size_bytes", .int f.sizeBytes),
    ("total_lines", .int f.totalLines), ("code_lines", .int f.codeLines),
    ("comment_lines", .int f.commentLines), ("blank_lines", .int f.blankLines),
    ("last_modified", .text (f.lastModified.textWith " "))]

end FileFacts

/-- A test file. Mock data are kept as records. -/
structure TestFile where
  facts : FileFacts
  imports : List String := []
  mockData : List Datum := []
  categories : List String := []
  testCases : List String := []
  setupHooks : List String := []
  complexity : Option Complexity := none
  quality : Option Quality := none
  analyzedAt : Moment
deriving Inhabited

inductive Advice where
  | keepAsIs
  | splitByCategory
  | splitByConcern
  | extractShared
deriving Repr, DecidableEq, Inhabited

def Advice.word : Advice → String
  | keepAsIs => "keep_as_is"
  | splitByCategory => "split_by_category"
  | splitByConcern => "split_by_concern"
  | extractShared => "extract_shared"

namespace TestFile

def counts (t : TestFile) : Counts :=
  { lines := t.facts.totalLines, categories := t.categories.length, tests := t.testCases.length,
    mocks := t.mockData.length, hooks := t.setupHooks.length }

def measured (t : TestFile) : TestFile := { t with complexity := some (.ofCounts t.counts) }

/-- The complexity that is known, or else that of the counts. -/
def complexityNow (t : TestFile) : Complexity := t.complexity.getD (.ofCounts t.counts)

def settled (t : TestFile) : TestFile := { t with complexity := some t.complexityNow }

/-- The assertions per test: one if there is any test. -/
def assertionRatio (t : TestFile) : Number := if t.testCases.isEmpty then .real 0.0 else .real 1.0

def judgedQuality (t : TestFile) (cyclomatic smells : Number) : Except Fault Quality :=
  Quality.judge
    { assertionRatio := t.assertionRatio, hasStructure := !t.categories.isEmpty,
      cyclomatic := cyclomatic, hasSetup := !t.setupHooks.isEmpty, smells := smells }

/-- Whether a file needs refactoring: it is complex, long, or has many groups. -/
def needsRefactoring (t : TestFile) : Bool :=
  t.complexityNow.needsRefactoring || decide (t.facts.totalLines > 300) ||
    decide (t.categories.length > 6)

def reasons (t : TestFile) : List String :=
  (if t.facts.totalLines > 300 then
    ["File too long (" ++ toString t.facts.totalLines ++ " lines)"] else []) ++
  (if t.categories.length > 6 then
    ["Too many categories (" ++ toString t.categories.length ++ ")"] else []) ++
  (if t.testCases.length > 20 then
    ["Too many test cases (" ++ toString t.testCases.length ++ ")"] else []) ++
  (if t.complexityNow.score.reaches 60 then
    ["High complexity (" ++ scoreText t.complexityNow.score ++ ")"] else [])
where
  /-- A score with one decimal place. -/
  scoreText (s : Score) : String :=
    match s.number.fixed 1 with
    | .ok text => text
    | .error _ => s.number.text

def refactoringReason (t : TestFile) : String :=
  if t.needsRefactoring then "; ".intercalate t.reasons else "No refactoring needed"

def advice (t : TestFile) : Advice :=
  if !t.needsRefactoring then .keepAsIs
  else if t.categories.length > 6 then .splitByCategory
  else if t.testCases.length > 20 then .splitByConcern
  else .extractShared

def complexitySummary (c : Complexity) : Datum :=
  .record [("score", .ofNumber c.score.number), ("level", .text c.level.word)]

/-- A file as a record. The complexity stands there only if it was known before. -/
def toDatum (t : TestFile) : Datum :=
  .record [("path", .text t.facts.path.text), ("relative_path", .text t.facts.relativePath.text),
    ("module", .text t.facts.module), ("size", .int t.facts.sizeBytes),
    ("lines", .int t.facts.totalLines), ("code_lines", .int t.facts.codeLines),
    ("categories", .texts t.categories), ("test_count", .nat t.testCases.length),
    ("mock_count", .nat t.mockData.length),
    ("complexity", .ofOption complexitySummary t.complexity),
    ("quality", .ofOption Quality.toDatum t.quality),
    ("needs_refactoring", .bool t.needsRefactoring),
    ("refactoring_reason", .text t.refactoringReason),
    ("recommended_action", .text t.advice.word),
    ("analyzed_at", .text t.analyzedAt.iso)]

def details (t : TestFile) : Datum :=
  .record [("imports", .texts t.imports), ("mock_data", .list t.mockData),
    ("test_cases", .texts t.testCases), ("setup_hooks", .texts t.setupHooks),
    ("comment_lines", .int t.facts.commentLines), ("blank_lines", .int t.facts.blankLines),
    ("factors", .ofOption (fun c => Complexity.factorsDatum c.factors) t.complexity),
    ("dict", t.toDatum)]

end TestFile
end SuiteTidy
