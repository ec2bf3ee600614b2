import SuiteTidy.TestFile

/-!
Signs that a test file could be better, and an index of how easy it is to maintain.
-/

set_option autoImplicit false
set_option relaxedAutoImplicit false

namespace SuiteTidy

inductive Severity where
  | low
  | medium
  | high
deriving Repr, DecidableEq, Inhabited

def Severity.word : Severity → String
  | low => "low"
  | medium => "medium"
  | high => "high"

/-- A smell: its name, how bad it is, what it is, where, and what to do about it. -/
structure Smell where
  name : String
  severity : Severity
  description : String
  location : String
  suggestion : String
deriving Repr, DecidableEq, Inhabited

def Smell.toDatum (s : Smell) : Datum :=
  .record [("type", .text s.name), ("severity", .text s.severity.word),
    ("description", .text s.description), ("location", .text s.location),
    ("suggestion", .text s.suggestion)]

namespace TestFile

def smell (t : TestFile) (name : String) (severity : Severity) (description suggestion : String) :
    Smell :=
  { name, severity, description, location := t.facts.path.text, suggestion }

def inParens (n : Int) (unit : String) : String := " (" ++ toString n ++ unit ++ ")"

def lengthSmells (t : TestFile) : List Smell :=
  let n := t.facts.totalLines
  if n > 500 then
    [t.smell "long_test_file" .high ("Test file is too long" ++ inParens n " lines")
      "Split into multiple files by category or concern"]
  else if n > 300 then
    [t.smell "long_test_file" .medium ("Test file is getting long" ++ inParens n " lines")
      "Consider splitting if adding more tests"]
  else []

def categorySmells (t : TestFile) : List Smell :=
  let n := t.categories.length
  if n > 10 then
    [t.smell "too_many_categories" .high ("Too many test categories" ++ inParens n "")
      "Split by category into separate files"]
  else if n > 6 then
    [t.smell "too_many_categories" .medium ("Many test categories" ++ inParens n "")
      "Consider organizing into fewer categories"]
  else if n = 0 ∧ t.testCases.length > 10 then
    [t.smell "no_categories" .medium "Tests not organized into categories"
      "Group related tests using describe blocks"]
  else []

def testSmells (t : TestFile) : List Smell :=
  let n := t.testCases.length
  if n > 30 then
    [t.smell "too_many_tests" .high ("Too many test cases" ++ inParens n "")
      "Split by testing concern or feature"]
  else if n > 20 then
    [t.smell "too_many_tests" .medium ("Many test cases" ++ inParens n "")
      "Consider splitting large test suites"]
  else []

def mockSmells (t : TestFile) : List Smell :=
  let n := t.mockData.length
  (if n > 10 then
    [t.smell "mock_overload" .high ("Too many mock definitions" ++ inParens n "")
      "Extract shared mocks to test utilities"]
  else if n > 5 then
    [t.smell "mock_overload" .medium ("Many mock definitions" ++ inParens n "")
      "Consider extracting common mocks"]
  else []) ++
  (if n > 0 ∧ t.setupHooks.isEmpty then
    [t.smell "no_setup_with_mocks" .low "Mocks defined but no setup hooks"
      "Use beforeEach/beforeAll for mock setup"]
  else [])

def structureSmells (t : TestFile) : List Smell :=
  if t.categories.isEmpty ∧ t.testCases.length > 5 then
    [t.smell "flat_structure" .low "Tests lack hierarchical structure"
      "Group related tests in describe blocks"]
  else []

def hookSmells (t : TestFile) : List Smell :=
  let n := t.setupHooks.length
  if n > 3 then
    [t.smell "too_many_hooks" .medium ("Too many setup hooks" ++ inParens n "")
      "Simplify test setup/teardown logic"]
  else []

def smells (t : TestFile) : List Smell :=
  t.lengthSmells ++ t.categorySmells ++ t.testSmells ++ t.mockSmells ++ t.structureSmells ++
    t.hookSmells

def qualitySmells (t : TestFile) : List String :=
  (if t.facts.totalLines > 500 then ["long_test_file"] else []) ++
  (if t.categories.length > 10 then ["too_many_categories"] else []) ++
  (if t.testCases.length > 30 then ["too_many_test_cases"] else []) ++
  (if t.categories.isEmpty ∧ t.testCases.length > 10 then ["no_categories"] else []) ++
  (if t.mockData.length > 10 then ["mock_overload"] else []) ++
  (if !t.mockData.isEmpty ∧ t.setupHooks.isEmpty then ["no_setup_with_mocks"] else [])

/-- How easy a file is to maintain, from zero to a hundred: less with more code and decisions. The
bounds are integers. -/
def maintainability (t : TestFile) (cyclomatic : Int) : Number :=
  let loc := (Float.ofInt (max 1 t.facts.codeLines))
  let decisions := Float.ofInt (max 1 cyclomatic)
  let volume := loc * (decisions + 1.0).log2
  let index := 171.0 - 5.2 * volume.log - 0.23 * decisions - 16.2 * loc.log
  (Number.int 0).greatest ((Number.int 100).least (.real index))

end TestFile

def smellSummary (ss : List Smell) : Datum :=
  let count (s : Severity) : Datum := .nat (ss.filter (·.severity == s)).length
  .record [("total", .nat ss.length), ("high", count .high), ("medium", count .medium),
    ("low", count .low)]

end SuiteTidy
