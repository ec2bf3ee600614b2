import SuiteTidy.Decimal.Shortest

/-!
The written forms of numbers: the shortest form, a fixed number of places, and scientific form; and
the value of a written decimal.
-/

set_option autoImplicit false
set_option relaxedAutoImplicit false

namespace SuiteTidy.Decimal

def digitsOf (n : Nat) : List Char := (toString n).toList

/-- Removes the zeros at the end of a digit string and counts them. -/
def dropTrailingZeros (ds : List Char) : List Char × Nat :=
  let kept := (ds.reverse.dropWhile (· == '0')).reverse
  (kept, ds.length - kept.length)

def exponentText (e : Int) : String :=
  let ds := digitsOf e.natAbs
  (if e < 0 then "-" else "+") ++ String.ofList (if ds.length < 2 then '0' :: ds else ds)

/-- Puts a point after the first `whole` digits; a position outside the digits is reached with
zeros. -/
def pointAfter (ds : List Char) (whole : Int) : String :=
  if whole ≤ 0 then "0." ++ String.ofList (List.replicate (-whole).toNat '0' ++ ds)
  else
    let n := whole.toNat
    if ds.length ≤ n then String.ofList (ds ++ List.replicate (n - ds.length) '0') ++ ".0"
    else String.ofList (ds.take n) ++ "." ++ String.ofList (ds.drop n)

def withExponent (ds : List Char) (e : Int) : String :=
  match ds with
  | [] => "0"
  | [d] => String.singleton d ++ "e" ++ exponentText e
  | d :: rest => String.singleton d ++ "." ++ String.ofList rest ++ "e" ++ exponentText e

/-- The shortest form of a positive finite number: positional from `0.0001` up to below `10 ^ 16`,
and with an exponent outside. A positional form always has a point. -/
def shortestMagnitude (mantissa : Nat) (exponent : Int) : String :=
  let (digits, place) := shortest mantissa exponent
  let (ds, zeros) := dropTrailingZeros (digitsOf digits)
  let whole : Int := (ds.length : Int) + place + zeros
  if -4 < whole ∧ whole ≤ 16 then pointAfter ds whole else withExponent ds (whole - 1)

def text (x : Float) : String :=
  match parts x with
  | .nan => "nan"
  | .infinite negative => if negative then "-inf" else "inf"
  | .finite negative mantissa exponent =>
    (if negative then "-" else "") ++
      (if mantissa = 0 then "0.0" else shortestMagnitude mantissa exponent)

def placesText (scaled places : Nat) : String :=
  let ds := digitsOf scaled
  let padded := List.replicate (places + 1 - ds.length) '0' ++ ds
  let whole := padded.length - places
  if places = 0 then String.ofList padded
  else String.ofList (padded.take whole) ++ "." ++ String.ofList (padded.drop whole)

def fixed (places : Nat) (x : Float) : String :=
  match parts x with
  | .nan => "nan"
  | .infinite negative => if negative then "-inf" else "inf"
  | .finite negative mantissa exponent =>
    let (num, den) := fractionOf mantissa exponent
    (if negative then "-" else "") ++ placesText (roundDiv (num * Nat.pow 10 places) den) places

/-- The digits of a positive fraction in scientific form with `places` digits after the first, and
the power of ten of the first. -/
def scientificDigits (places num den : Nat) : Nat × Int :=
  let e := tenPower num den
  let (up, down) := powerOf 10 (places - e)
  let digits := roundDiv (num * up) (den * down)
  if digits ≥ Nat.pow 10 (places + 1) then (digits / 10, e + 1) else (digits, e)

def scientific (places : Nat) (x : Float) : String :=
  match parts x with
  | .nan => "nan"
  | .infinite negative => if negative then "-inf" else "inf"
  | .finite negative mantissa exponent =>
    let sign := if negative then "-" else ""
    if mantissa = 0 then
      sign ++ withExponent (List.replicate (places + 1) '0') 0
    else
      let (num, den) := fractionOf mantissa exponent
      let (digits, e) := scientificDigits places num den
      sign ++ withExponent (digitsOf digits) e

def digitsValue (ds : List Char) : Nat :=
  ds.foldl (fun n d => 10 * n + (d.toNat - '0'.toNat)) 0

/-- The number nearest to `digits * 10 ^ place`. Far outside the range of floating-point numbers
the answer is an infinity or zero, whatever the digits. -/
def ofDecimal (negative : Bool) (digits : Nat) (place : Int) : Float :=
  let size : Int := (digits.log2 : Int) * 30103 / 100000 + place
  if digits = 0 ∨ size < -400 then nearest negative 0 1
  else if size > 400 then nearest negative (Nat.pow 2 1100) 1
  else
    let (up, down) := powerOf 10 place
    nearest negative (digits * up) down

def signedDigits? : List Char → Option Int
  | '-' :: ds => if ds.isEmpty || !ds.all Char.isDigit then none else some (-(digitsValue ds : Int))
  | '+' :: ds => if ds.isEmpty || !ds.all Char.isDigit then none else some (digitsValue ds)
  | ds => if ds.isEmpty || !ds.all Char.isDigit then none else some (digitsValue ds)

def magnitude? (negative : Bool) (cs : List Char) : Option Float :=
  let whole := cs.takeWhile Char.isDigit
  let rest := cs.dropWhile Char.isDigit
  let (fraction, rest) : List Char × List Char :=
    match rest with
    | '.' :: more => (more.takeWhile Char.isDigit, more.dropWhile Char.isDigit)
    | _ => ([], rest)
  if whole.isEmpty && fraction.isEmpty then none
  else
    let exponent? : Option Int :=
      match rest with
      | [] => some 0
      | 'e' :: more => signedDigits? more
      | 'E' :: more => signedDigits? more
      | _ => none
    exponent?.map fun e =>
      ofDecimal negative (digitsValue (whole ++ fraction)) (e - fraction.length)

/-- Reads the text of a number: decimal digits with an optional sign, point and exponent, or one of
the words `inf` and `nan`. -/
def read? (s : String) : Option Float :=
  let (negative, cs) : Bool × List Char :=
    match s.toList with
    | '-' :: cs => (true, cs)
    | '+' :: cs => (false, cs)
    | cs => (false, cs)
  if cs = ['i', 'n', 'f'] then some (if negative then -(1.0 / 0.0) else 1.0 / 0.0)
  else if cs = ['n', 'a', 'n'] then some (0.0 / 0.0)
  else magnitude? negative cs

end SuiteTidy.Decimal
