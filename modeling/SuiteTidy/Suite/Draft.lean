import SuiteTidy.Datum.Access
import SuiteTidy.Fault
import SuiteTidy.Text.Case

/-!
Writing test sources: drafts of tests and groups of tests, and the text that they become.
-/

set_option autoImplicit false
set_option relaxedAutoImplicit false

namespace SuiteTidy.Suite

/-- A test to be written: its name, whether it is asynchronous, and the lines of its body. -/
structure CaseDraft where
  name : String := "should work"
  isAsync : Bool := false
  body : List String := []
deriving Repr, DecidableEq, Inhabited

/-- A group of tests to be written: its name, whether it has a setup hook, its tests, and the groups
inside it. -/
inductive GroupDraft where
  | mk (name : String) (hasSetup : Bool) (tests : List CaseDraft) (nested : List GroupDraft)
deriving Inhabited

structure MockDraft where
  name : String := "mockData"
  content : String := "\x7b\x7d"
deriving Repr, DecidableEq, Inhabited

structure HelperDraft where
  name : String := "helperFunction"
  params : List String := []
  body : String := "return null;"
deriving Repr, DecidableEq, Inhabited

def padding (level : Nat) : String := String.ofList (List.replicate (2 * level) ' ')

/-- The lines of a test at a level. A test without a body gets an expectation that always holds. -/
def CaseDraft.lines (level : Nat) (t : CaseDraft) : List String :=
  let body := if t.body.isEmpty then ["expect(true).toBe(true);"] else t.body
  [padding level ++ "it('" ++ t.name ++ "', " ++ (if t.isAsync then "async " else "") ++
    "() => \x7b"] ++
  body.map (padding (level + 1) ++ ·) ++
  [padding level ++ "\x7d);"]

def setupLines (level : Nat) : List String :=
  [padding (level + 1) ++ "beforeEach(() => \x7b", padding (level + 2) ++ "// Setup",
    padding (level + 1) ++ "\x7d);", ""]

mutual
def GroupDraft.lines (level : Nat) : GroupDraft → List String
  | ⟨name, hasSetup, tests, nested⟩ =>
    [padding level ++ "describe('" ++ name ++ "', () => \x7b"] ++
    (if hasSetup then setupLines level else []) ++
    tests.flatMap (fun t => t.lines (level + 1) ++ [""]) ++
    groupLines (level + 1) nested ++
    [padding level ++ "\x7d);"]

def groupLines (level : Nat) : List GroupDraft → List String
  | [] => []
  | g :: gs => g.lines level ++ [""] ++ groupLines level gs
end

def MockDraft.line (m : MockDraft) : String := "const " ++ m.name ++ " = " ++ m.content ++ ";"

/-- A whole test source: imports, mocks and groups, with an empty line between them. -/
def sourceText (imports : List String) (mocks : List MockDraft) (groups : List GroupDraft) :
    String :=
  let sections :=
    (if imports.isEmpty then [] else [unlines imports]) ++
    (if mocks.isEmpty then [] else [unlines (mocks.map MockDraft.line)]) ++
    groups.map fun g => unlines (g.lines 0)
  "\n\n".intercalate sections ++ "\n"

def HelperDraft.text (h : HelperDraft) : String :=
  "export function " ++ h.name ++ "(" ++ ", ".intercalate h.params ++ ") \x7b\n  " ++ h.body ++
    "\n\x7d"

def toolsText (mocks : List MockDraft) (helpers : List HelperDraft) : String :=
  let sections :=
    (if mocks.isEmpty then []
      else "// Mock Data" ::
        mocks.map fun m => "export const " ++ m.name ++ " = " ++ m.content ++ ";") ++
    (if helpers.isEmpty then [] else "\n// Helper Functions" :: helpers.map HelperDraft.text)
  "\n\n".intercalate sections ++ "\n"

def header (now : Moment) (description : String) : String :=
  "/**\n * " ++ description ++ "\n * Auto-generated by Test Refactor AI\n * Generated at: " ++
    now.toSecond ++ "\n */\n"

def topicName (topic : String) : String :=
  lowered (String.ofList (topic.toList.map fun c => if c = ' ' || c = '/' then '_' else c))

/-- How the files of a split are worded. -/
structure SplitWords where
  stem : String
  title : String
  testName : String → String
  firstLine : String → String

def byCategory : SplitWords where
  stem := "category"
  title := "Category"
  testName topic := "should test " ++ topic ++ " functionality"
  firstLine _ := "// TODO: Add specific tests for this category"

def byConcern : SplitWords where
  stem := "concern"
  title := "Concern"
  testName topic := "should handle " ++ topic
  firstLine topic := "// TODO: Implement tests for " ++ topic

def SplitWords.fileName (w : SplitWords) (index : Nat) (topic : String) : String :=
  w.stem ++ "_" ++ toString (index + 1) ++ "_" ++ topicName topic ++ ".spec.ts"

def SplitWords.source (w : SplitWords) (now : Moment) (topic : String) : String :=
  header now ("Split from original test file - " ++ w.title ++ ": " ++ topic) ++
    sourceText ["import \x7b Test \x7d from '@nestjs/testing';"] []
      [⟨topic ++ " Tests", false,
        [{ name := w.testName topic
           body := [w.firstLine topic, "// This file was auto-generated by Test Refactor AI",
             "expect(true).toBe(true);"] }], []⟩]

/-- Files with one of them set: in its old place if its name is known, at the end otherwise. -/
def putFile (name text : String) : List (String × String) → List (String × String)
  | [] => [(name, text)]
  | (known, old) :: rest =>
    if known = name then (known, text) :: rest else (known, old) :: putFile name text rest

/-- A file for each topic: its name and its text. A file replaces an earlier one of its name. -/
def SplitWords.files (w : SplitWords) (now : Moment) (topics : List String) :
    List (String × String) :=
  topics.zipIdx.foldl
    (fun files (topic, i) => putFile (w.fileName i topic) (w.source now topic) files) []

def sharedMocks (now : Moment) (names : List String) : String × String :=
  ("test-utils.ts",
    header now "Shared test utilities and mocks" ++
    "// Shared Mock Data\nexport const sharedMocks = \x7b\n" ++
    String.join (names.map fun n => "  " ++ n ++ ": \x7b\x7d,\n") ++ "\x7d;\n\n" ++
    "// Helper Functions\nexport function setupTest() \x7b\n  // Common test setup\n" ++
    "  return \x7b\x7d;\n\x7d\n")

/-! Drafts from records. -/

abbrev Reading (α : Type) : Type := Datum.Found α

def plainOr (key other : String) (d : Datum) : Reading String := do
  return (← d.itemOr key (.text other)).plain

/-- The body of a test: one line, or lines one after another. -/
def bodyOf : Datum → Reading (List String)
  | .text s => .ok [s]
  | d => do return (← d.members).map Datum.plain

def CaseDraft.ofDatum (d : Datum) : Reading CaseDraft := do
  let name ← plainOr "name" "should work" d
  let isAsync := (← d.itemOr "async" (.bool false)).truthy
  return { name, isAsync, body := ← bodyOf (← d.itemOr "body" (.list [])) }

/-- Reads the draft of a group; `fuel` bounds the depth. -/
def GroupDraft.ofDatumTo : Nat → Datum → Reading GroupDraft
  | 0, d => .error (.notIterable d.kindName)
  | fuel + 1, d => do
    let name ← plainOr "name" "Test Suite" d
    let hasSetup := (← d.itemOr "beforeEach" .null).truthy
    let tests ← (← (← d.itemOr "tests" (.list [])).members).mapM CaseDraft.ofDatum
    let nested ← (← (← d.itemOr "nested" (.list [])).members).mapM (ofDatumTo fuel)
    return ⟨name, hasSetup, tests, nested⟩

def GroupDraft.ofDatum (d : Datum) : Reading GroupDraft := ofDatumTo d.weight d

def MockDraft.ofDatum (d : Datum) : Reading MockDraft := do
  let name ← plainOr "name" "mockData" d
  return { name, content := ← plainOr "content" "\x7b\x7d" d }

def joinable (d : Datum) : Reading (List String) := do
  let items ← match d.members with
    | .ok items => pure items
    | .error _ => .error .notJoinable
  items.zipIdx.mapM fun (x, i) =>
    match x with
    | .text s => .ok s
    | x => .error (.joinItem i x.kindName)

def HelperDraft.ofDatum (d : Datum) : Reading HelperDraft := do
  let name ← plainOr "name" "helperFunction" d
  let params ← d.itemOr "params" (.list [])
  let body ← plainOr "body" "return null;" d
  return { name, params := ← joinable params, body }

/-- Reads drafts one after another; a value that counts as false holds none. -/
def drafts {α : Type} (read : Datum → Reading α) (d : Datum) : Reading (List α) := do
  if d.truthy then (← d.members).mapM read else return []

/-- The lines of a value that counts as true; others have none. -/
def linesIn (d : Datum) : Reading (List String) := do
  if d.truthy then joinable d else return []

def sourceOf (imports mocks groups : Datum) : Reading String := do
  let imports ← linesIn imports
  let mocks ← drafts MockDraft.ofDatum mocks
  return sourceText imports mocks (← (← groups.members).mapM GroupDraft.ofDatum)

def categorySource (category imports mocks tests : Datum) : Reading String :=
  sourceOf imports mocks (.list [.record [("name", category), ("tests", tests)]])

def toolsOf (mocks helpers : Datum) : Reading String := do
  let mocks ← drafts MockDraft.ofDatum mocks
  return toolsText mocks (← drafts HelperDraft.ofDatum helpers)

end SuiteTidy.Suite
