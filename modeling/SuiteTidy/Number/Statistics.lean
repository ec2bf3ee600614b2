import SuiteTidy.Number.Basic
import SuiteTidy.Datum.Fault
import SuiteTidy.Order.Insertion

/-!
Averages, spread, percentiles and scaling of numbers. An empty list has the answer zero.
-/

set_option autoImplicit false
set_option relaxedAutoImplicit false

namespace SuiteTidy.Number

def zero : Number := real 0.0

/-- The share of `part` in `total` out of a hundred; zero when there is no total. -/
def percentage (part total : Number) : Result Number := do
  if total.isZero then return zero
  (← part.dividedBy total).times (int 100)

/-- The sum of the values times their weights; zero unless there is one weight for each value. -/
def weightedAverage (values weights : List Number) : Result Number := do
  if values.isEmpty || weights.isEmpty || values.length != weights.length then return zero
  (values.zip weights).foldlM (fun acc (v, w) => do acc.plus (← v.times w)) (int 0)

/-- Where a value lies between two bounds, from zero to one. -/
def normalize (value low high : Number) : Result Number := do
  if high.same low then return zero
  (← value.minus low).dividedBy (← high.minus low)

def pair : List Number → Except DatumFault (Number × Number)
  | [a, b] => .ok (a, b)
  | _ :: _ :: _ => .error (.tooManyItems 2)
  | xs => .error (.tooFewItems 2 xs.length)

def rescale (value fromLow fromHigh toLow toHigh : Number) : Result Number := do
  let place ← normalize value fromLow fromHigh
  toLow.plus (← place.times (← toHigh.minus toLow))

/-- The value moved to the nearer bound if it lies outside the bounds. -/
def clamp (value low high : Number) : Number := low.greatest (value.least high)

def mean (values : List Number) : Result Number := do
  if values.isEmpty then return zero
  (← sum values).dividedBy (int values.length)

def sorted (values : List Number) : List Number :=
  Id.run (Order.sortM (fun a b => pure (a.less b)) values)

def median (values : List Number) : Result Number := do
  let ordered := sorted values
  let mid := ordered.length / 2
  match ordered[mid - 1]?, ordered[mid]? with
  | some below, some above =>
    if ordered.length % 2 = 0 then (← below.plus above).dividedBy (int 2) else return above
  | _, _ => return zero

/-- The square of a number; an infinite square of a finite number has no value. -/
def squareReal (x : Float) : Result Float :=
  let y := x * x
  if y.isInf && x.isFinite then .error .resultOutOfRange else .ok y

def standardDeviation (values : List Number) : Result Float := do
  if values.isEmpty then return 0.0
  let centre ← mean values
  let addSquare (acc v : Number) : Result Number := do
    let d ← (← v.minus centre).toReal
    acc.plus (real (← squareReal d))
  let total ← values.foldlM addSquare (int 0)
  let variance ← (← total.dividedBy (int values.length)).toReal
  return variance.sqrt

inductive PercentileFault where
  | arithmetic (cause : NumberFault)
  | outOfRange
deriving Repr, DecidableEq

/-- The item at a place; a negative place counts from the end. -/
def itemAt (values : List Number) (place : Int) : Except PercentileFault Number :=
  let index := if place < 0 then place + values.length else place
  if index < 0 then .error .outOfRange
  else match values[index.toNat]? with
    | some v => .ok v
    | none => .error .outOfRange

/-- The value below which `percent` of a hundred values lie, by linear interpolation. -/
def percentile (values : List Number) (percent : Number) : Except PercentileFault Number := do
  if values.isEmpty then return zero
  let lift {α : Type} (r : Result α) : Except PercentileFault α := r.mapError .arithmetic
  let ordered := sorted values
  let share ← lift (percent.dividedBy (int 100))
  let index ← lift (do (← share.times (int ((ordered.length : Int) - 1))).toReal)
  if index.isFinite && index == index.floor then
    itemAt ordered (← lift (truncate index))
  else
    let below ← lift (floor index)
    let low ← itemAt ordered below
    let high ← itemAt ordered (← lift (ceil index))
    lift do
      let part ← (real index).minus (int below)
      low.plus (← (← high.minus low).times part)

def exponentialDecay (initial rate time : Number) : Result Float := do
  let power ← (← rate.negated.times time).toReal
  let factor := power.exp
  if factor.isInf && power.isFinite then .error .functionOutOfRange
  else (← initial.times (real factor)).toReal

def overOr {α : Type} (embed : Number → α) (num den : Number) (other : α) : Result α := do
  if den.isZero then return other
  return embed (← num.dividedBy den)

end SuiteTidy.Number
