import SuiteTidy.Datum.Basic
import SuiteTidy.Text.Quoted

/-!
The written form of a value of any shape: with quotes around texts, as in lists and messages, and
plain.
-/

set_option autoImplicit false
set_option relaxedAutoImplicit false

namespace SuiteTidy.Datum

/-- A moment as the call that makes it; parts of a minute are left out when they are zero. -/
def momentCall (m : Moment) : String :=
  let d := Moment.dateOf (m.micros / Moment.perDay)
  let (h, mi, s) := Moment.clockFields (m.micros % Moment.perDay / Moment.perSecond)
  let us := m.micros % Moment.perSecond
  let tail := if us ≠ 0 then [s, us] else if s ≠ 0 then [s] else []
  "datetime.datetime(" ++
    ", ".intercalate (([d.year, d.month, d.day, h, mi] ++ tail).map fun n => toString n) ++ ")"

mutual
def shown : Datum → String
  | null => "None"
  | bool b => if b then "True" else "False"
  | int n => toString n
  | real x => Decimal.text x
  | text s => quoted s
  | bytes b => String.ofList (Text.quoteBytes b)
  | path p => "PosixPath(" ++ quoted p.text ++ ")"
  | moment m => momentCall m
  | member group name word => "<" ++ group ++ "." ++ name ++ ": " ++ quoted word ++ ">"
  | kind name => "<class '" ++ name ++ "'>"
  | failure c words => c ++ "(" ++ quoted words ++ ")"
  | list xs => "[" ++ shownItems xs ++ "]"
  | tuple [] => "()"
  | tuple [x] => "(" ++ shown x ++ ",)"
  | tuple xs => "(" ++ shownItems xs ++ ")"
  | dict fs => "\x7b" ++ shownFields fs ++ "\x7d"

def shownItems : List Datum → String
  | [] => ""
  | [x] => shown x
  | x :: xs => shown x ++ ", " ++ shownItems xs

def shownFields : List (Datum × Datum) → String
  | [] => ""
  | [(k, v)] => shown k ++ ": " ++ shown v
  | (k, v) :: rest => shown k ++ ": " ++ shown v ++ ", " ++ shownFields rest
end

/-- The plain form of a value: a text is itself. -/
def plain : Datum → String
  | text s => s
  | path p => p.text
  | moment m => m.textWith " "
  | member group name _ => group ++ "." ++ name
  | failure _ words => words
  | d => shown d

end SuiteTidy.Datum
