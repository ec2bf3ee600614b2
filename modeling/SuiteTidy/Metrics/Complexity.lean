import SuiteTidy.Fault

/-!
How complex a test file is: five counts, the points that each of them earns, and the level of their
sum.
-/

set_option autoImplicit false
set_option relaxedAutoImplicit false

namespace SuiteTidy

structure Counts where
  lines : Int
  categories : Int
  tests : Int
  mocks : Int
  hooks : Int
deriving Repr, DecidableEq, Inhabited

structure Factors where
  lines : Nat
  categories : Nat
  tests : Nat
  mocks : Nat
  hooks : Nat
deriving Repr, DecidableEq, Inhabited

def Factors.total (f : Factors) : Nat := f.lines + f.categories + f.tests + f.mocks + f.hooks

/-- The points for a count: those of the first limit that it exceeds. -/
def pointsFor : List (Int × Nat) → Int → Nat
  | [], _ => 0
  | (limit, points) :: rest, n => if limit < n then points else pointsFor rest n

def Counts.factors (c : Counts) : Factors :=
  { lines := pointsFor [(500, 30), (300, 20), (150, 10)] c.lines
    categories := pointsFor [(10, 25), (6, 15), (3, 8)] c.categories
    tests := pointsFor [(30, 20), (20, 12), (10, 6)] c.tests
    mocks := pointsFor [(5, 15), (3, 10), (0, 5)] c.mocks
    hooks := pointsFor [(3, 10), (0, 5)] c.hooks }

inductive ComplexityLevel where
  | simple
  | medium
  | complex
deriving Repr, DecidableEq, Inhabited

namespace ComplexityLevel

def all : List ComplexityLevel := [simple, medium, complex]

def word : ComplexityLevel → String
  | simple => "simple"
  | medium => "medium"
  | complex => "complex"

def toDatum : ComplexityLevel → Datum
  | simple => .member "ComplexityLevel" "SIMPLE" "simple"
  | medium => .member "ComplexityLevel" "MEDIUM" "medium"
  | complex => .member "ComplexityLevel" "COMPLEX" "complex"

def ofPoints (points : Nat) : ComplexityLevel :=
  if 60 ≤ points then complex else if 30 ≤ points then medium else simple

def ofWord (w : String) : Except Fault ComplexityLevel :=
  match all.find? (·.word == w) with
  | some l => .ok l
  | none => .error (.datum (.notMember (.text w) "ComplexityLevel"))

end ComplexityLevel

/-- A score out of a hundred: points that were counted, or a number that was given. -/
inductive Score where
  | counted (points : Nat)
  | given (x : Number)
deriving Repr, Inhabited

namespace Score

/-- The number of a score. Counted points are a floating-point number. -/
def number : Score → Number
  | counted points => .real points.toFloat
  | given x => x

def reaches (limit : Nat) : Score → Bool
  | counted points => limit ≤ points
  | given x => Number.atMost (.int limit) x

def exceeds (limit : Nat) : Score → Bool
  | counted points => limit < points
  | given x => (Number.int limit).less x

end Score

/-- The complexity of a test file. The points of a score that was given are not known. -/
structure Complexity where
  score : Score
  level : ComplexityLevel
  factors : Option Factors
deriving Repr, Inhabited

namespace Complexity

def ofCounts (c : Counts) : Complexity :=
  let f := c.factors
  { score := .counted f.total, level := .ofPoints f.total, factors := some f }

def isScore (x : Number) : Bool := Number.atMost (.int 0) x && Number.atMost x (.int 100)

def checked (c : Complexity) : Except Fault Complexity :=
  if isScore c.score.number then .ok c else .error (.scoreOutOfRange c.score.number)

def rate (c : Counts) : Except Fault Complexity := checked (ofCounts c)

def ofScore (score : Number) (level : ComplexityLevel) : Except Fault Complexity :=
  checked { score := .given score, level, factors := none }

def isComplex (c : Complexity) : Bool := c.level == .complex

def needsRefactoring (c : Complexity) : Bool := c.score.reaches 50

def pointsDatum (n : Nat) : Datum := .real n.toFloat

def factorsDatum : Option Factors → Datum
  | none => .record []
  | some f =>
    .record [("lines", pointsDatum f.lines), ("categories", pointsDatum f.categories),
      ("tests", pointsDatum f.tests), ("mocks", pointsDatum f.mocks),
      ("hooks", pointsDatum f.hooks)]

def toDatum (c : Complexity) : Datum :=
  .record [("score", .ofNumber c.score.number), ("level", c.level.toDatum),
    ("factors", factorsDatum c.factors)]

end Complexity
end SuiteTidy
