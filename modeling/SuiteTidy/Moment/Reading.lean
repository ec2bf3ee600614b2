import SuiteTidy.Moment.Basic

/-!
Reading a point in time: a calendar or week date, with or without hyphens, and after any one
character a time of day with an optional part of a second and an optional distance from the
reference zone.
-/

set_option autoImplicit false
set_option relaxedAutoImplicit false

namespace SuiteTidy.Moment

def digits? : Nat → List Char → Option (Int × List Char)
  | n, cs => go n 0 cs
where
  go : Nat → Int → List Char → Option (Int × List Char)
    | 0, acc, cs => some (acc, cs)
    | _ + 1, _, [] => none
    | n + 1, acc, c :: cs =>
      if c.isDigit then go n (acc * 10 + (c.toNat - '0'.toNat : Nat)) cs else none

/-- How many characters the date takes, judged by its fifth and sixth characters. -/
def dateLength? (cs : List Char) : Option Nat :=
  let n := cs.length
  let at_ (i : Nat) : Char := (cs[i]?).getD '\x00'
  if n < 7 then none
  else if n = 7 then some 7
  else if at_ 4 = '-' then
    if at_ 5 = 'W' then
      if n > 8 ∧ at_ 8 = '-' then
        if n = 9 then none
        else if n > 10 ∧ (at_ 10).isDigit then some 8
        else some 10
      else some 8
    else some 10
  else if at_ 4 = 'W' then
    let run := 7 + ((cs.drop 7).takeWhile Char.isDigit).length
    if run < 9 then some run else if run % 2 = 0 then some 7 else some 8
  else some 8

def weekday (dayNumber : Int) : Int := dayNumber % 7

/-- The day number of the Monday of the first week of a year, the week of its first Thursday. -/
def firstMonday (y : Int) : Int :=
  let first := dayNumber y 1 1
  let w := weekday first
  if w ≤ 3 then first - w else first - w + 7

def hasLongYear (y : Int) : Bool :=
  let w := weekday (dayNumber y 1 1)
  w == 3 || (w == 2 && isLeap y)

def weekDate? (y week day : Int) : Option Date :=
  if week < 1 ∨ week > 53 ∨ (week = 53 ∧ !hasLongYear y) ∨ day < 1 ∨ day > 7 then none
  else some (dateOf (firstMonday y + (week - 1) * 7 + (day - 1)))

def date? (n : Nat) (cs : List Char) : Option Date := do
  let (y, rest) ← digits? 4 cs
  let hyphens := rest.head? == some '-'
  let rest := if hyphens then rest.drop 1 else rest
  if rest.head? == some 'W' then
    let (week, rest') ← digits? 2 (rest.drop 1)
    if cs.length - rest'.length < n then
      if hyphens && rest'.head? != some '-' then none
      else
        let (day, _) ← digits? 1 (if hyphens then rest'.drop 1 else rest')
        weekDate? y week day
    else weekDate? y week 1
  else
    let (m, rest') ← digits? 2 rest
    if hyphens && rest'.head? != some '-' then none
    else
      let (d, _) ← digits? 2 (if hyphens then rest'.drop 1 else rest')
      return { year := y, month := m, day := d }

abbrev Clock : Type := Int × Int × Int × Int

def setField (i : Nat) (v : Int) : Clock → Clock
  | (h, m, s, us) =>
    match i with
    | 0 => (v, m, s, us)
    | 1 => (h, v, s, us)
    | _ => (h, m, v, us)

/-- Reads the digits after the point of the seconds. The flag says whether anything follows them. -/
def fraction? (clock : Clock) (cs after : List Char) : Option (Clock × Bool) := do
  let count := min cs.length 6
  let (v, rest) ← digits? count cs
  let (h, m, s, _) := clock
  let left := (rest ++ after).dropWhile Char.isDigit
  return ((h, m, s, v * Int.pow 10 (6 - count)), !left.isEmpty)

/-- Reads hours, minutes and seconds, with colons or without; `after` is what follows the text that
is to be read. The flag says whether anything follows. -/
def clock? : Nat → Nat → Bool → Clock → List Char → List Char → Option (Clock × Bool)
  | 0, _, _, clock, cs, after => fraction? clock cs after
  | fuel + 1, i, colons, clock, cs, after => do
    let (v, rest) ← digits? 2 (cs ++ after)
    let clock := setField i v clock
    let used := 2
    let left := cs.drop used
    let c := (rest.head?).getD '\x00'
    let colons := if i = 0 then decide (c = ':') else colons
    if left.length ≤ 1 then return (clock, !rest.isEmpty)
    else if colons ∧ c = ':' then
      if i = 2 then fraction? clock (left.drop 1) after
      else clock? fuel (i + 1) colons clock (left.drop 1) after
    else if c = '.' ∨ c = ',' then fraction? clock (left.drop 1) after
    else if colons then none
    else if i = 2 then fraction? clock left after
    else clock? fuel (i + 1) colons clock left after

def startsZone (c : Char) : Bool := c == '+' || c == '-' || c == 'Z'

def time? (cs : List Char) : Option (Clock × Option Int) := do
  -- The first character always belongs to the time.
  let body := cs.take 1 ++ (cs.drop 1).takeWhile (fun c => !startsZone c)
  let body := if (cs.head?.map startsZone).getD false then [] else body
  let zone := cs.drop body.length
  let (clock, more) ← clock? 3 0 true (0, 0, 0, 0) body zone
  match zone with
  | [] => if more then none else return (clock, none)
  | 'Z' :: rest => if rest.isEmpty then return (clock, some 0) else none
  | sign :: rest =>
    let ((h, m, s, us), more) ← clock? 3 0 true (0, 0, 0, 0) rest []
    if more then none
    else
      let size := (h * 3600 + m * 60 + s) * perSecond + us
      return (clock, some (if sign = '-' then -size else size))

/-- A distance in time as days, seconds and microseconds, leaving out what is zero. -/
def durationText (micros : Int) : String :=
  let field (label : String) (v : Int) : List String :=
    if v = 0 then [] else [label ++ "=" ++ toString v]
  let fields := field "days" (micros / perDay) ++ field "seconds" (micros % perDay / perSecond) ++
    field "microseconds" (micros % perSecond)
  "datetime.timedelta(" ++ (if fields.isEmpty then "0" else ", ".intercalate fields) ++ ")"

/-- A clock is less than a day away from the reference zone. -/
def checkedZone : Option Int → Except Fault Unit
  | none => .ok ()
  | some off =>
    if off.natAbs < perDay then .ok ()
    else .error (.field ("offset must be a timedelta strictly between -timedelta(hours=24) and " ++
      "timedelta(hours=24), not " ++ durationText off ++ "."))

def read (text : String) : Except Fault Moment :=
  let cs := text.toList
  let parsed : Option (Date × Clock × Option Int) := do
    let n ← dateLength? cs
    let d ← date? n cs
    if cs.length > n then
      let (clock, zone) ← time? (cs.drop (n + 1))
      return (d, clock, zone)
    else return (d, (0, 0, 0, 0), none)
  match parsed with
  | none => .error (.malformed text)
  | some (d, (h, m, s, us), zone) => do
    checkedZone zone
    checked d.year d.month d.day h m s us zone

end SuiteTidy.Moment
