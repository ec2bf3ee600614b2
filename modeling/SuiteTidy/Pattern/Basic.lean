import SuiteTidy.Fault

/-!
Patterns that recur in test files: how often they were seen, and how sure that makes them.
-/

set_option autoImplicit false
set_option relaxedAutoImplicit false

namespace SuiteTidy

inductive PatternKind where
  | structure_
  | naming
  | organization
  | mockUsage
  | testStrategy
deriving Repr, DecidableEq, Inhabited

namespace PatternKind

def all : List PatternKind := [structure_, naming, organization, mockUsage, testStrategy]

def word : PatternKind → String
  | structure_ => "structure"
  | naming => "naming"
  | organization => "organization"
  | mockUsage => "mock_usage"
  | testStrategy => "test_strategy"

def ofWord (d : Datum) : Except Fault PatternKind :=
  match d with
  | .text w =>
    match all.find? (·.word == w) with
    | some k => .ok k
    | none => .error (.datum (.notMember d "PatternType"))
  | _ => .error (.datum (.notMember d "PatternType"))

end PatternKind

inductive Frequency where
  | rare
  | occasional
  | common
  | frequent
  | dominant
deriving Repr, DecidableEq, Inhabited

namespace Frequency

def all : List Frequency := [rare, occasional, common, frequent, dominant]

def word : Frequency → String
  | rare => "rare"
  | occasional => "occasional"
  | common => "common"
  | frequent => "frequent"
  | dominant => "dominant"

def ofWord (d : Datum) : Except Fault Frequency :=
  match d with
  | .text w =>
    match all.find? (·.word == w) with
    | some f => .ok f
    | none => .error (.datum (.notMember d "PatternFrequency"))
  | _ => .error (.datum (.notMember d "PatternFrequency"))

def ofPercentage (x : Number) : Frequency :=
  if (Number.int 80).less x then dominant
  else if (Number.int 60).less x then frequent
  else if (Number.int 30).less x then common
  else if (Number.int 10).less x then occasional
  else rare

end Frequency

structure Pattern where
  id : String
  kind : PatternKind
  name : String
  description : String
  examples : List String := []
  occurrences : Int := 0
  totalFiles : Int := 0
  frequency : Option Frequency := none
  confidence : Number := .real 0.0
  discoveredAt : Moment
  lastSeen : Moment
  related : List String := []
  isGoodPractice : Bool := true
  recommendation : Option String := none
deriving Repr, Inhabited

namespace Pattern

def share (p : Pattern) : Number.Result Number :=
  (Number.int p.occurrences).dividedBy (.int p.totalFiles)

/-- Finds how common a pattern is. Without files it counts as rare, and nothing is noted. -/
def findFrequency (p : Pattern) : Number.Result (Frequency × Pattern) := do
  if p.totalFiles = 0 then return (.rare, p)
  let f := Frequency.ofPercentage (← (← p.share).times (.int 100))
  return (f, { p with frequency := some f })

/-- Finds how sure a pattern is: seven tenths by the share of files, three tenths by examples. -/
def findConfidence (p : Pattern) : Number.Result (Number × Pattern) := do
  if p.totalFiles = 0 then return (.real 0.0, { p with confidence := .real 0.0 })
  let shown ← (Number.int p.examples.length).dividedBy (.int 10)
  let byFiles ← (← p.share).times (.real 0.7)
  let byExamples ← (shown.least (.real 1.0)).times (.real 0.3)
  let c ← byFiles.plus byExamples
  return (c, { p with confidence := c })

/-- The pattern after it has been seen once more. Ten examples are kept. -/
def seen (p : Pattern) (now : Moment) (sample : String) : Pattern :=
  { p with
    occurrences := p.occurrences + 1, lastSeen := now,
    examples := if p.examples.length < 10 then p.examples ++ [sample] else p.examples }

def isSignificant (p : Pattern) : Bool :=
  Number.atMost (.real 0.5) p.confidence && decide (3 ≤ p.occurrences) &&
    p.frequency != some .rare

def toDatum (p : Pattern) : Datum :=
  .record [("id", .text p.id), ("type", .text p.kind.word), ("name", .text p.name),
    ("description", .text p.description), ("occurrences", .int p.occurrences),
    ("total_files", .int p.totalFiles),
    ("frequency", .ofOption (fun f => .text f.word) p.frequency),
    ("confidence", .ofNumber p.confidence), ("is_good_practice", .bool p.isGoodPractice),
    ("recommendation", .ofOption .text p.recommendation),
    ("examples_count", .nat p.examples.length), ("discovered_at", .text p.discoveredAt.iso),
    ("last_seen", .text p.lastSeen.iso)]

def details (p : Pattern) : Datum :=
  match p.toDatum with
  | .dict fields => .dict (fields ++ [(.text "examples", .texts p.examples)])
  | d => d

end Pattern
end SuiteTidy
