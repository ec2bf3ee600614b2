import SuiteTidy.Metrics.Complexity

/-!
How good a test file is: a score out of a hundred and its level.
-/

set_option autoImplicit false
set_option relaxedAutoImplicit false

namespace SuiteTidy

inductive QualityLevel where
  | excellent
  | good
  | fair
  | poor
deriving Repr, DecidableEq, Inhabited

namespace QualityLevel

def all : List QualityLevel := [excellent, good, fair, poor]

def word : QualityLevel → String
  | excellent => "excellent"
  | good => "good"
  | fair => "fair"
  | poor => "poor"

def ofScore (x : Number) : QualityLevel :=
  if Number.atMost (.int 80) x then excellent
  else if Number.atMost (.int 60) x then good
  else if Number.atMost (.int 40) x then fair
  else poor

end QualityLevel

structure Quality where
  score : Number
  level : QualityLevel
deriving Repr, Inhabited

namespace Quality

def ofScore (x : Number) : Except Fault Quality :=
  if Complexity.isScore x then .ok { score := x, level := .ofScore x }
  else .error (.scoreOutOfRange x)

/-- What is known of a file when its quality is judged: assertions per test, whether its tests are
grouped, its decisions, whether it has hooks, and the number of its smells. -/
structure Evidence where
  assertionRatio : Number
  hasStructure : Bool
  cyclomatic : Number
  hasSetup : Bool
  smells : Number

/-- The score before it is brought into its range: a hundred, less five for each smell, less for few
assertions and many decisions, more for structure and setup. -/
def rawScore (e : Evidence) : Number.Result Number := do
  let score ← (Number.real 100.0).minus (← e.smells.times (.int 5))
  let score ←
    if e.assertionRatio.less (.real 0.5) then score.minus (.int 30)
    else if e.assertionRatio.less (.real 1.0) then score.minus (.int 20)
    else pure score
  let score ← if e.hasStructure then score.plus (.int 10) else pure score
  let score ← if e.hasSetup then score.plus (.int 5) else pure score
  if (Number.int 100).less e.cyclomatic then score.minus (.int 30)
  else if (Number.int 50).less e.cyclomatic then score.minus (.int 15)
  else pure score

def judge (e : Evidence) : Except Fault Quality := do
  let score ← (rawScore e).mapError .number
  ofScore ((Number.real 0.0).greatest ((Number.real 100.0).least score))

def toDatum (q : Quality) : Datum :=
  .record [("score", .ofNumber q.score), ("level", .text q.level.word)]

end Quality
end SuiteTidy
