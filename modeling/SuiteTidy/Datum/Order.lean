import SuiteTidy.Datum.Access
import SuiteTidy.Text.Lines

/-!
The order of two values. Numbers are ordered by value, texts by their characters, points in time by
what comes first, paths by their components, lists by the first place at which they differ; values
of different kinds have no order.
-/

set_option autoImplicit false
set_option relaxedAutoImplicit false

namespace SuiteTidy.Datum

inductive Comparison where
  | less
  | atMost
  | greater
  | atLeast
deriving Repr, DecidableEq

def Comparison.sign : Comparison → String
  | less => "<"
  | atMost => "<="
  | greater => ">"
  | atLeast => ">="

/-- The answer for two numbers. One that is no number at all stands in no order. -/
def Comparison.ofNumbers (c : Comparison) (a b : Number) : Bool :=
  match c with
  | less => a.less b
  | atMost => a.atMost b
  | greater => b.less a
  | atLeast => b.atMost a

def Comparison.ofOrdering (c : Comparison) (o : Ordering) : Bool :=
  match c with
  | less => o == .lt
  | atMost => o != .gt
  | greater => o == .gt
  | atLeast => o != .lt

/-- The answer for two points in time. They are compared on the clock of the reference zone if both
have a known distance from it. -/
def Comparison.ofMoments (c : Comparison) (a b : Moment) : Found Bool :=
  match a.offset, b.offset with
  | none, none => .ok (c.ofOrdering (compare a.micros b.micros))
  | some x, some y => .ok (c.ofOrdering (compare (a.micros - x) (b.micros - y)))
  | _, _ => .error .zonesDiffer

mutual
def comparedTo (c : Comparison) : Nat → Datum → Datum → Found Bool
  | 0, _, _ => .ok false
  | _ + 1, text a, text b => .ok (c.ofOrdering (compare a b))
  | _ + 1, bytes a, bytes b => .ok (c.ofOrdering (compare a b))
  | _ + 1, path a, path b => .ok (c.ofOrdering (compare a.components b.components))
  | _ + 1, moment a, moment b => c.ofMoments a b
  | n + 1, list a, list b => comparedLists c n a b
  | n + 1, tuple a, tuple b => comparedLists c n a b
  | _ + 1, a, b =>
    match a.number?, b.number? with
    | some x, some y => .ok (c.ofNumbers x y)
    | _, _ => .error (.notOrdered c.sign a.kindName b.kindName)

/-- Compares two lists at the first place where they differ, else by length. -/
def comparedLists (c : Comparison) : Nat → List Datum → List Datum → Found Bool
  | 0, _, _ => .ok false
  | n + 1, x :: xs, y :: ys => if x.same y then comparedLists c n xs ys else comparedTo c n x y
  | _ + 1, xs, ys => .ok (c.ofOrdering (compare xs.length ys.length))
end

def compared (c : Comparison) (a b : Datum) : Found Bool :=
  comparedTo c (a.weight + b.weight + 1) a b

/-- Whether a text is a key of a dictionary, an item of a list or a part of a text. -/
def holds (key : String) : Datum → Found Bool
  | dict fields => .ok (lookup (text key) fields).isSome
  | list xs => .ok (xs.any (·.same (text key)))
  | tuple xs => .ok (xs.any (·.same (text key)))
  | text s => .ok (hasText s key)
  | bytes _ => .error (.bytesNeeded "str")
  | d => .error (.notSearchable d.kindName)

end SuiteTidy.Datum
