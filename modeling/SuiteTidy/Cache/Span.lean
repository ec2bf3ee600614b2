import SuiteTidy.Moment.Basic
import SuiteTidy.Number.Basic

/-!
Spans of time given in hours, in whole microseconds.
-/

set_option autoImplicit false
set_option relaxedAutoImplicit false

namespace SuiteTidy.Cache

def perHour : Int := 3600 * Moment.perSecond

/-- A fraction of a microsecond rounded to a whole one; a half goes to the side that makes the sum
with `base` even. -/
def roundedFraction (base : Int) (x : Float) : Int :=
  let nearest := x.round
  let whole :=
    if (nearest - x).abs == 0.5 then
      let odd := if base % 2 = 0 then 0.0 else 1.0
      2.0 * ((x + odd) * 0.5).round - odd
    else nearest
  match Number.truncate whole with
  | .ok n => n
  | .error _ => 0

/-- The microseconds in a number of hours. The fraction of an hour is turned into microseconds on
its own. -/
def microsOfHours : Number → Number.Result Int
  | .int n => .ok (n * perHour)
  | .real x => do
    let whole ← Number.truncate x
    let part := x - Float.ofInt whole
    if part == 0.0 then return whole * perHour
    let micros := 3600000000.0 * part
    let wholeMicros ← Number.truncate micros
    let base := whole * perHour + wholeMicros
    return base + roundedFraction base (micros - Float.ofInt wholeMicros)

def endOfTime : Int := Moment.dayNumber 10000 1 1 * Moment.perDay

/-- The moment that lies a number of hours after another, if there is one in the calendar. -/
def expiry? (now : Moment) (hours : Number) : Option Moment :=
  match microsOfHours hours with
  | .error _ => none
  | .ok span =>
    let later := now.micros + span
    if 0 ≤ later ∧ later < endOfTime then some { now with micros := later } else none

end SuiteTidy.Cache
