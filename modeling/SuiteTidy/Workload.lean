import SuiteTidy.Cache.Store
import SuiteTidy.Check.Plan
import SuiteTidy.Number.Statistics
import SuiteTidy.Plan.Planning
import SuiteTidy.Settings.Basic
import SuiteTidy.Suite.Source

/-!
Work of a given size for parts of the tool: the cache, the settings, the readers of sources, the
figures and the planner. What a round leaves behind is there in the next one.
-/

set_option autoImplicit false
set_option relaxedAutoImplicit false

namespace SuiteTidy.Workload

def rounds {σ : Type} (step : σ → Work (σ × Datum)) : Nat → σ → Work (List Datum)
  | 0, _ => return []
  | k + 1, s => do
    let (s, d) ← step s
    return d :: (← rounds step k s)

def keyOf (i : Nat) : String := "key_" ++ toString i

def keepNumber (c : Cache) (i : Nat) : Work Cache := do
  return (← c.set (keyOf i) (.nat i) .null true).1

def dropNumber (c : Cache) (i : Nat) : Work Cache := do
  return (← c.delete (keyOf i)).1

def countNumber (x : Cache × Int × Nat) (i : Nat) : Work (Cache × Int × Nat) := do
  match ← x.1.get (keyOf i) true with
  | (c, some (.int v)) => return (c, x.2.1 + v, x.2.2 + 1)
  | (c, _) => return (c, x.2)

/-- Keeps the numbers below `n`, drops every eleventh, and gives the sum and the count of those that
are read back. -/
def cacheRound (n : Nat) (c : Cache) : Work (Cache × Datum) := do
  let numbers := List.range n
  let c ← numbers.foldlM keepNumber c
  let c ← (numbers.filter (· % 11 == 0)).foldlM dropNumber c
  let (c, sum, count) ← numbers.foldlM countNumber (c, 0, 0)
  return (c, .list [.int sum, .nat count])

def settingOf (i : Nat) : String := "values." ++ keyOf i

def numberIn (s : Settings) (i : Nat) : Int :=
  match s.get (settingOf i) (.int 0) with
  | .int v => v
  | _ => 0

def countedSettings (n : Nat) : Except DatumFault Settings :=
  (List.range n).foldlM (fun s i => s.updated (settingOf i) (.nat i))
    { values := .dict [], loaded := true }

/-- Adds up the settings below `n` and raises each of them by one. -/
def settingsRound (n : Nat) (s : Settings) : Work (Settings × Datum) := do
  let numbers := List.range n
  let sum := (numbers.map (numberIn s)).foldr (· + ·) 0
  let raised ← Work.lift .datum
    (numbers.foldlM (fun s i => s.updated (settingOf i) (.int (numberIn s i + 1))) s)
  return (raised, .int sum)

def block (indent : Nat) (opening : String) (body : List String) : List String :=
  let blanks := String.ofList (List.replicate indent ' ')
  (blanks ++ opening ++ "() => \x7b") :: body ++ [blanks ++ "\x7d);"]

def testLines (indent : Nat) (name : String) : List String :=
  block indent ("it('" ++ name ++ "', ") []

def groupLines (i : Nat) : List String :=
  block 2 ("describe('group " ++ toString i ++ "', ") (testLines 4 "first" ++ testLines 4 "second")

def suiteLines (n : Nat) : List String :=
  block 0 "describe('suite', "
    (block 2 "beforeEach(" [] ++ testLines 2 "starts" ++ (List.range n).flatMap groupLines)

def suiteCounts (n : Nat) : Datum :=
  let bs := Suite.blocks (suiteLines n)
  .list [.nat ((bs.map fun b => b.children.length).foldr (· + ·) 0),
    .nat (Suite.categories bs).length, .nat (Suite.testCases bs).length]

def mockLines : List String :=
  ["const mockCall = jest.fn(() => \x7b return \x7b id: 1 \x7d; \x7d);",
   "const mockUser = \x7b id: 1, name: 'n', age: 3, tags: [1, 2] \x7d;",
   "const mockOrder = \x7b id: 1, lines: [\x7b sku: 's' \x7d] \x7d;",
   "const mockCount = 5;", "const mockName = 'name';", "let other = 1;"]

/-- The number of mocks in a source of `n` lines in whole groups, what their contents add up to, and
their kinds. There is at least one group. -/
def mockCounts (n : Nat) : Datum :=
  let ms := Suite.mocks ((List.range (max 1 (n / 6))).flatMap fun _ => mockLines)
  let kinds := (ms.map fun m => m.kind.word).eraseDups.mergeSort fun a b => a ≤ b
  .list [.nat ms.length, .nat ((ms.map fun m => m.complexity).foldr (· + ·) 0), .texts kinds]

/-- Figures on `n` numbers that are spread over a range: twice their deviation, the mean with equal
weights on top of the plain one, the plain mean, and the middle of the numbers below twenty. -/
def figures (n : Nat) : Number.Result Datum := do
  let values := (List.range n).map fun i => Number.real (i * 37 % 503).toFloat
  let weight ← (Number.real 1.0).dividedBy (.int n)
  let deviation ← Number.standardDeviation values
  let mean ← Number.mean values
  let weighted ← Number.weightedAverage values (List.replicate n weight)
  let both ← (← weighted.plus mean).round 4
  let twice ← (Number.real (deviation * 2.0)).round 4
  let middle ← Number.median ((List.range 20).map fun i => .real i.toFloat)
  return .list [.ofNumber twice, .ofNumber both, .ofNumber (← mean.round 4), .ofNumber middle]

def names (stem : String) (n : Nat) : List String :=
  (List.range n).map fun i => stem ++ toString i

/-- What a file with a number holds. Files take turns: one with many groups, a long one with many
tests, and one with many mocks. -/
def contentsOf (t : TestFile) (i : Nat) : TestFile :=
  match i % 3 with
  | 0 => { t with facts := { t.facts with totalLines := 200 }, categories := names "group " 8,
                  testCases := names "test " 24 }
  | 1 => { t with facts := { t.facts with totalLines := 600 }, testCases := names "test " 40,
                  setupHooks := names "hook " 4 }
  | _ => { t with facts := { t.facts with totalLines := 400 }, testCases := names "test " 15,
                  mockData := (names "mock" 9).map .text }

def plannedFile (i : Nat) : Work TestFile := do
  let now ← Work.now
  let path := Path.ofString ("file" ++ toString i ++ ".spec.ts")
  Work.writeText path ""
  return contentsOf
    { facts := { path, relativePath := path, module := "workload", sizeBytes := 0, totalLines := 0,
                 codeLines := 0, commentLines := 0, blankLines := 0, lastModified := now },
      analyzedAt := now } i

def scoreOf (t : TestFile) : Except Fault Number := do
  let quality ← t.judgedQuality (.int 0) (.int 0)
  (t.complexityNow.score.number.plus quality.score).mapError .number

/-- The number of plans for `n` files, how many of them hold up, how sure they are on average, and
the scores of the files. Without a plan there is no first one to look at. -/
def planned (n : Nat) : Work Datum := do
  let files ← (List.range n).mapM plannedFile
  let (plans, summary) ← Planning.plansWithSummary files
  if plans.isEmpty then throw (.datum .indexOutOfRange)
  let valid ← Work.lift (fun f => f) (PlanCheck.batch (← Work.files) plans)
  let scores ← Work.lift (fun f => f) (files.mapM scoreOf)
  let total ← Work.lift .number (Number.sum scores)
  return .list [.nat summary.total, .nat valid.length, .ofNumber summary.averageConfidence,
    .ofNumber total]

def cache (n count : Nat) : Work (List Datum) := do
  rounds (cacheRound n) count (← Cache.openAt (.ofString "workload") (.int 24))

def settings (n count : Nat) : Work (List Datum) := do
  rounds (settingsRound n) count (← Work.lift .datum (countedSettings n))

def steady (d : Datum) (count : Nat) : Work (List Datum) := return List.replicate count d

def named? : String → Option (Nat → Nat → Work (List Datum))
  | "persistence" => some cache
  | "config_loader" => some settings
  | "structure_parse" => some fun n => steady (suiteCounts n)
  | "mock_parse" => some fun n => steady (mockCounts n)
  | "math_utils" => some fun n count => do steady (← Work.lift .number (figures n)) count
  | "planning_and_validation" => some fun n count => do steady (← planned n) count
  | _ => none

end SuiteTidy.Workload
