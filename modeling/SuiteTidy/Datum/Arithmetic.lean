import SuiteTidy.Fault
import SuiteTidy.Number.Statistics

/-!
Arithmetic on values of any shape.
-/

set_option autoImplicit false
set_option relaxedAutoImplicit false

namespace SuiteTidy.Datum

def repeated {α : Type} (xs : List α) (times : Int) : List α :=
  (List.replicate times.toNat xs).flatten

def repeatedSequence? (times : Int) : Datum → Option Datum
  | text s => some (text (String.ofList (repeated s.toList times)))
  | bytes b => some (bytes (repeated b times))
  | list xs => some (list (repeated xs times))
  | tuple xs => some (tuple (repeated xs times))
  | _ => none

def isSequence : Datum → Bool
  | text _ => true
  | bytes _ => true
  | list _ => true
  | tuple _ => true
  | _ => false

/-- The product of two numbers, or of a sequence and a count. -/
def times (a b : Datum) : Except Fault Datum :=
  match a.number?, b.number? with
  | some x, some y => (x.times y).map ofNumber |>.mapError .number
  | some (.int n), none =>
    match b.repeatedSequence? n with
    | some r => .ok r
    | none => .error (.datum (.notCombined "*" a.kindName b.kindName))
  | none, some (.int n) =>
    match a.repeatedSequence? n with
    | some r => .ok r
    | none => .error (.datum (.notCombined "*" a.kindName b.kindName))
  | _, _ =>
    if a.isSequence then .error (.datum (.notRepeatable b.kindName))
    else if b.isSequence then .error (.datum (.notRepeatable a.kindName))
    else .error (.datum (.notCombined "*" a.kindName b.kindName))

/-- The sum of the metrics times their weights, between zero and a hundred. A metric without a
weight does not count. -/
def weightedScore (metrics weights : List (Datum × Datum)) : Except Fault Number := do
  let add (acc : Number) (metric : Datum × Datum) : Except Fault Number := do
    let weight := (lookup metric.1 weights).getD (real 0.0)
    let amount ← metric.2.times weight
    match amount.number? with
    | some x => (acc.plus x).mapError .number
    | none => .error (.datum (.notCombined "+=" (ofNumber acc).kindName amount.kindName))
  let score ← metrics.foldlM add Number.zero
  return Number.clamp score (.real 0.0) (.real 100.0)

end SuiteTidy.Datum
