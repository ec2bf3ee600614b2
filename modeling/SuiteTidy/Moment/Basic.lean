import SuiteTidy.Text.Lines

/-!
Points in time on the calendar, counted in microseconds, with an optional distance from the
reference zone; their written form and the reading of it.
-/

set_option autoImplicit false
set_option relaxedAutoImplicit false

namespace SuiteTidy

/-- A point in time: microseconds since the start of the year one on the clock that is read, and
the distance of that clock from the reference zone in microseconds, if it is known. -/
structure Moment where
  micros : Int
  offset : Option Int := none
deriving Repr, DecidableEq, Inhabited, BEq

namespace Moment

def perSecond : Int := 1000000

def perDay : Int := 86400 * perSecond

def isLeap (y : Int) : Bool := y % 4 == 0 && (y % 100 != 0 || y % 400 == 0)

def daysIn (y : Int) (m : Int) : Int :=
  if m = 2 then (if isLeap y then 29 else 28)
  else if m = 4 ∨ m = 6 ∨ m = 9 ∨ m = 11 then 30 else 31

/-- Days in the years before `y`, counted from the year one. -/
def daysBeforeYear (y : Int) : Int :=
  let p := y - 1
  p * 365 + p / 4 - p / 100 + p / 400

def daysBeforeMonth (y m : Int) : Int :=
  ((List.range (m.toNat - 1)).map fun k : Nat => daysIn y ((k : Int) + 1)).foldr (· + ·) 0

/-- The day number of a date; the first day of the year one has number zero. -/
def dayNumber (y m d : Int) : Int := daysBeforeYear y + daysBeforeMonth y m + (d - 1)

structure Date where
  year : Int
  month : Int
  day : Int
deriving Repr, DecidableEq, Inhabited

def monthOf (y : Int) : Nat → Int → Int → Int × Int
  | 0, m, d => (m, d)
  | fuel + 1, m, d => if d < daysIn y m then (m, d) else monthOf y fuel (m + 1) (d - daysIn y m)

def dateOf (n : Int) : Date :=
  let guess := n / 366 + 1
  -- The guess is at most a few years early for every year that has four digits.
  let later := (List.range 40).filter fun k : Nat => daysBeforeYear (guess + (k : Int)) ≤ n
  let y := guess + (((later.getLast?).getD 0 : Nat) : Int)
  let (m, d) := monthOf y 11 1 (n - daysBeforeYear y)
  { year := y, month := m, day := d + 1 }

def ofFields (y mo d h mi s us : Int) (offset : Option Int) : Moment :=
  { micros := dayNumber y mo d * perDay + ((h * 60 + mi) * 60 + s) * perSecond + us
    offset := offset }

def padded (width : Nat) (n : Int) : String :=
  let ds := (toString n.natAbs).toList
  String.ofList (List.replicate (width - ds.length) '0' ++ ds)

def two (n : Int) : String := padded 2 n

def dateText (m : Moment) : String :=
  let d := dateOf (m.micros / perDay)
  padded 4 d.year ++ "-" ++ two d.month ++ "-" ++ two d.day

def clockFields (seconds : Int) : Int × Int × Int :=
  (seconds / 3600, seconds / 60 % 60, seconds % 60)

/-- The time of day, with six digits for a part of a second if there is one. -/
def timeText (m : Moment) : String :=
  let (h, mi, s) := clockFields (m.micros % perDay / perSecond)
  let us := m.micros % perSecond
  two h ++ ":" ++ two mi ++ ":" ++ two s ++ (if us = 0 then "" else "." ++ padded 6 us)

/-- The distance from the reference zone: a sign, hours and minutes, and what is needed beyond. -/
def offsetText : Option Int → String
  | none => ""
  | some off =>
    let size : Int := off.natAbs
    let (h, mi, s) := clockFields (size / perSecond)
    let us := size % perSecond
    (if off < 0 then "-" else "+") ++ two h ++ ":" ++ two mi ++
      (if s = 0 ∧ us = 0 then "" else ":" ++ two s ++ (if us = 0 then "" else "." ++ padded 6 us))

def textWith (sep : String) (m : Moment) : String :=
  m.dateText ++ sep ++ m.timeText ++ offsetText m.offset

def iso (m : Moment) : String := m.textWith "T"

def toSecond (m : Moment) : String :=
  let (h, mi, sec) := clockFields (m.micros % perDay / perSecond)
  m.dateText ++ " " ++ two h ++ ":" ++ two mi ++ ":" ++ two sec

/-- Digits only: year to day, an underscore, hour to second. -/
def stamp (m : Moment) : String :=
  let d := dateOf (m.micros / perDay)
  let (h, mi, s) := clockFields (m.micros % perDay / perSecond)
  padded 4 d.year ++ two d.month ++ two d.day ++ "_" ++ two h ++ two mi ++ two s

def later (m : Moment) (micros : Int) : Moment := { m with micros := m.micros + micros }

inductive Fault where
  | malformed (text : String)
  | field (words : String)
deriving Repr, DecidableEq

/-- The moment of fields that have been read, once each of them has been found in its range. -/
def checked (y mo d h mi s us : Int) (offset : Option Int) : Except Fault Moment :=
  if y < 1 ∨ y > 9999 then .error (.field ("year " ++ toString y ++ " is out of range"))
  else if mo < 1 ∨ mo > 12 then .error (.field "month must be in 1..12")
  else if d < 1 ∨ d > daysIn y mo then .error (.field "day is out of range for month")
  else if h > 23 then .error (.field "hour must be in 0..23")
  else if mi > 59 then .error (.field "minute must be in 0..59")
  else if s > 59 then .error (.field "second must be in 0..59")
  else .ok (ofFields y mo d h mi s us offset)

end Moment
end SuiteTidy
