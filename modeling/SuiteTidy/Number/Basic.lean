import SuiteTidy.Decimal.Written

/-!
Numbers that are either integers of any size or floating-point numbers. The two kinds are kept
apart: integers stay integers under addition, subtraction and multiplication, division always gives
a floating-point number, and comparison is exact across the kinds.
-/

set_option autoImplicit false
set_option relaxedAutoImplicit false

namespace SuiteTidy

inductive Number where
  | int (n : Int)
  | real (x : Float)
deriving Inhabited, Repr

inductive NumberFault where
  | divisionByZero
  | realDivisionByZero
  | quotientTooLarge
  | integerTooLarge
  | resultOutOfRange
  | functionOutOfRange
  | roundedTooLarge
  | infinityToInteger
  | nanToInteger
deriving Repr, DecidableEq

namespace NumberFault

def message : NumberFault → String
  | divisionByZero => "division by zero"
  | realDivisionByZero => "float division by zero"
  | quotientTooLarge => "integer division result too large for a float"
  | integerTooLarge => "int too large to convert to float"
  | resultOutOfRange => "(34, 'Numerical result out of range')"
  | functionOutOfRange => "math range error"
  | roundedTooLarge => "rounded value too large to represent"
  | infinityToInteger => "cannot convert float infinity to integer"
  | nanToInteger => "cannot convert float NaN to integer"

end NumberFault

namespace Number

abbrev Result (α : Type) : Type := Except NumberFault α

def toReal : Number → Result Float
  | int n => match Decimal.ofInt? n with
    | some x => .ok x
    | none => .error .integerTooLarge
  | real x => .ok x

/-- The exact fraction of a finite number: sign, numerator and denominator. -/
def fraction? : Number → Option (Int × Nat)
  | int n => some (n, 1)
  | real x => match Decimal.parts x with
    | .finite negative mantissa exponent =>
      let (num, den) := Decimal.fractionOf mantissa exponent
      some (if negative then -(num : Int) else num, den)
    | _ => none

def isZero : Number → Bool
  | int n => n == 0
  | real x => x == 0.0

/-- The exact order of an integer and a floating-point number that is not NaN. -/
def compareIntReal (n : Int) (x : Float) : Ordering :=
  match (real x).fraction? with
  | some (num, den) => compare (n * den) num
  | none => if x < 0.0 then .gt else .lt

/-- Whether the first number is below the second. NaN is below nothing. -/
def less : Number → Number → Bool
  | int a, int b => a < b
  | real a, real b => a < b
  | int a, real b => !b.isNaN && compareIntReal a b == .lt
  | real a, int b => !a.isNaN && compareIntReal b a == .gt

def same : Number → Number → Bool
  | int a, int b => a == b
  | real a, real b => a == b
  | int a, real b => !b.isNaN && compareIntReal a b == .eq
  | real a, int b => !a.isNaN && compareIntReal b a == .eq

def atMost (a b : Number) : Bool := a.less b || a.same b

def least (a b : Number) : Number := if b.less a then b else a

def greatest (a b : Number) : Number := if a.less b then b else a

/-- Applies an operation to two integers, or to two floating-point numbers after conversion. -/
def combine (onInts : Int → Int → Int) (onReals : Float → Float → Float) :
    Number → Number → Result Number
  | int a, int b => .ok (int (onInts a b))
  | a, b => do return real (onReals (← a.toReal) (← b.toReal))

def plus : Number → Number → Result Number := combine (· + ·) (· + ·)

def minus : Number → Number → Result Number := combine (· - ·) (· - ·)

def times : Number → Number → Result Number := combine (· * ·) (· * ·)

def negated : Number → Number
  | int n => int (-n)
  | real x => real (-x)

/-- The quotient as a floating-point number. The quotient of two integers is the number nearest to
the exact fraction. -/
def dividedBy : Number → Number → Result Number
  | int a, int b =>
    if b = 0 then .error .divisionByZero
    else match Decimal.nearest? (decide (a * b < 0)) a.natAbs b.natAbs with
      | some x => .ok (real x)
      | none => .error .quotientTooLarge
  | a, b => do
    let x ← a.toReal
    let y ← b.toReal
    if y == 0.0 then .error .realDivisionByZero else return real (x / y)

def sum (xs : List Number) : Result Number := xs.foldlM plus (int 0)

/-- The integer rounded to a multiple of `10 ^ (-places)` for negative `places`; a half goes to the
even multiple. -/
def roundInt (n : Int) (places : Int) : Int :=
  if 0 ≤ places then n
  else
    let unit := Nat.pow 10 (-places).toNat
    let size : Int := (Decimal.roundDiv n.natAbs unit * unit : Nat)
    if n < 0 then -size else size

/-- The floating-point number rounded to a number of decimal places, a half of its exact value to
the even neighbour. Outside these bounds on `places` the number itself or zero is the answer. -/
def roundReal (x : Float) (places : Int) : Result Float :=
  match Decimal.parts x with
  | .finite negative mantissa exponent =>
    if places > 323 then .ok x
    else if places < -308 then .ok (Decimal.nearest negative 0 1)
    else
      let (num, den) := Decimal.fractionOf mantissa exponent
      let (up, down) := Decimal.powerOf 10 places
      let scaled := Decimal.roundDiv (num * up) (den * down)
      match Decimal.nearest? negative (scaled * down) up with
      | some y => .ok y
      | none => .error .roundedTooLarge
  | _ => .ok x

def round (places : Int) : Number → Result Number
  | int n => .ok (int (roundInt n places))
  | real x => (roundReal x places).map real

def floor (x : Float) : Result Int :=
  match Decimal.parts x with
  | .nan => .error .nanToInteger
  | .infinite _ => .error .infinityToInteger
  | .finite negative mantissa exponent =>
    let (num, den) := Decimal.fractionOf mantissa exponent
    .ok (Int.fdiv (if negative then -(num : Int) else num) den)

def ceil (x : Float) : Result Int := (floor (-x)).map (- ·)

def truncate (x : Float) : Result Int := if x < 0.0 then ceil x else floor x

def text : Number → String
  | int n => toString n
  | real x => Decimal.text x

def fixed (places : Nat) : Number → Result String
  | int n => do return Decimal.fixed places (← (int n).toReal)
  | real x => .ok (Decimal.fixed places x)

def percent (places : Nat) (x : Number) : Result String := do
  return Decimal.fixed places ((← x.toReal) * 100.0) ++ "%"

end Number
end SuiteTidy
