/-!
A floating-point number as an exact fraction, and the floating-point number nearest to a fraction.
All arithmetic here is on natural numbers and integers, so nothing is lost on the way.
-/

set_option autoImplicit false
set_option relaxedAutoImplicit false

namespace SuiteTidy.Decimal

/-- What a floating-point number stands for. A finite one is `mantissa * 2 ^ exponent` with its
sign. -/
inductive Parts where
  | nan
  | infinite (negative : Bool)
  | finite (negative : Bool) (mantissa : Nat) (exponent : Int)
deriving Repr, DecidableEq

def parts (x : Float) : Parts :=
  let word := x.toBits.toNat
  let negative := decide (word / Nat.pow 2 63 % 2 = 1)
  let field : Nat := word / Nat.pow 2 52 % Nat.pow 2 11
  let fraction : Nat := word % Nat.pow 2 52
  if field = 2047 then (if fraction = 0 then .infinite negative else .nan)
  else if field = 0 then .finite negative fraction (-1074)
  else .finite negative (Nat.pow 2 52 + fraction) ((field : Int) - 1075)

def powerOf (base : Nat) (e : Int) : Nat × Nat :=
  if 0 ≤ e then (Nat.pow base e.toNat, 1) else (1, Nat.pow base (-e).toNat)

/-- The quotient rounded to the nearest integer; a half goes to the even neighbour. -/
def roundDiv (num den : Nat) : Nat :=
  let q := num / den
  let twice := 2 * (num % den)
  if twice > den ∨ (twice = den ∧ q % 2 = 1) then q + 1 else q

def scaledQuotient (num den : Nat) (shift : Int) : Nat :=
  let (up, down) := powerOf 2 shift
  roundDiv (num * up) (den * down)

/-- The binary place of the last mantissa bit for a quotient: the largest shift that keeps the
rounded-down quotient below `2 ^ 53`, but never past the last place of the smallest numbers. -/
def mantissaShift (num den : Nat) : Int :=
  let guess : Int := 53 - ((num.log2 : Int) - den.log2)
  let (up, down) := powerOf 2 guess
  let shift := if num * up / (den * down) ≥ Nat.pow 2 53 then guess - 1 else guess
  min shift 1074

/-- The floating-point number nearest to a fraction; a half goes to the even mantissa. `none` when
the fraction is too large for any finite number. -/
def nearest? (negative : Bool) (num den : Nat) : Option Float :=
  let sign : Nat := if negative then Nat.pow 2 63 else 0
  if num = 0 then some (Float.ofBits sign.toUInt64)
  else
    let shift := mantissaShift num den
    let mantissa := scaledQuotient num den shift
    -- The exponent field counts from the place of the smallest numbers, and a mantissa that was
    -- rounded up to the next power of two carries into it.
    let bits := mantissa + (1074 - shift).toNat * Nat.pow 2 52
    if bits ≥ 2047 * Nat.pow 2 52 then none else some (Float.ofBits (bits + sign).toUInt64)

def nearest (negative : Bool) (num den : Nat) : Float :=
  match nearest? negative num den with
  | some x => x
  | none => if negative then -(1.0 / 0.0) else 1.0 / 0.0

def ofInt? (n : Int) : Option Float := nearest? (n < 0) n.natAbs 1

def fractionOf (mantissa : Nat) (exponent : Int) : Nat × Nat :=
  let (up, down) := powerOf 2 exponent
  (mantissa * up, down)

end SuiteTidy.Decimal
