import SuiteTidy.Decimal.Binary

/-!
The shortest decimal that reads back as a given floating-point number. Among the decimals with the
fewest digits, the one nearest to the number is taken.
-/

set_option autoImplicit false
set_option relaxedAutoImplicit false

namespace SuiteTidy.Decimal

/-- The power of ten that a positive fraction lies at or above: the largest `e` with
`10 ^ e ≤ num / den`. -/
def tenPower (num den : Nat) : Int :=
  let bits : Int := (num.log2 : Int) - den.log2
  let guess : Int := (bits - 1) * 30103 / 100000
  let fits (e : Int) : Bool :=
    let (up, down) := powerOf 10 e
    decide (up * den ≤ num * down)
  (([guess + 2, guess + 1, guess].find? fits)).getD (guess - 1)

/-- A positive number between two bounds: its mantissa and bounds in units of a quarter of the last
place, as a fraction, and whether the bounds themselves read back as the number. -/
structure Cell where
  value : Nat
  low : Nat
  high : Nat
  unitUp : Nat
  unitDown : Nat
  closed : Bool

/-- The cell of the reals that are nearer to `mantissa * 2 ^ exponent` than to its neighbours. Below
a power of two the neighbour is only half as far away. -/
def cellOf (mantissa : Nat) (exponent : Int) : Cell :=
  let (up, down) := powerOf 2 (exponent - 2)
  let low :=
    if mantissa = Nat.pow 2 52 ∧ exponent > -1074 then 4 * mantissa - 1 else 4 * mantissa - 2
  { value := 4 * mantissa, low := low, high := 4 * mantissa + 2, unitUp := up, unitDown := down,
    closed := mantissa % 2 = 0 }

def Cell.holds (cell : Cell) (digits : Nat) (place : Int) : Bool :=
  let (up, down) := powerOf 10 place
  let x := digits * up * cell.unitDown
  let low := cell.low * cell.unitUp * down
  let high := cell.high * cell.unitUp * down
  if cell.closed then decide (low ≤ x ∧ x ≤ high) else decide (low < x ∧ x < high)

/-- The decimal with its last digit at `place` that lies in the cell and is nearest to its
number. -/
def Cell.onGrid? (cell : Cell) (place : Int) : Option Nat :=
  let (up, down) := powerOf 10 place
  let num := cell.value * cell.unitUp * down
  let den := cell.unitDown * up
  let below := num / den
  match cell.holds below place, cell.holds (below + 1) place with
  | true, true => some (roundDiv num den)
  | true, false => some below
  | false, true => some (below + 1)
  | false, false => none

/-- The first grid with a decimal in the cell, from coarse to fine. -/
def Cell.search (cell : Cell) : Nat → Int → Nat × Int
  | 0, place => ((cell.onGrid? place).getD 0, place)
  | more + 1, place =>
    match cell.onGrid? place with
    | some digits => (digits, place)
    | none => cell.search more (place - 1)

/-- The shortest decimal of a positive finite number: `digits * 10 ^ place`. -/
def shortest (mantissa : Nat) (exponent : Int) : Nat × Int :=
  let (num, den) := fractionOf mantissa exponent
  (cellOf mantissa exponent).search 17 (tenPower num den)

end SuiteTidy.Decimal
