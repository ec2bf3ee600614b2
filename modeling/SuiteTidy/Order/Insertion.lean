/-!
Sorting with a comparison that may fail or that is no order at all. The leading run is taken as it
is, a strictly falling one reversed; every later item is put in by binary search. For an order this
is the stable sort.
-/

set_option autoImplicit false
set_option relaxedAutoImplicit false

namespace SuiteTidy.Order

variable {α : Type} {m : Type → Type} [Monad m]

/-- The longest prefix of `last :: xs` in which the comparison of each item with the one before it
gives `expect`, and the rest. The run is built in reverse. -/
def leadingRun (less : α → α → m Bool) (expect : Bool) :
    α → List α → List α → m (List α × List α)
  | _, run, [] => pure (run, [])
  | last, run, x :: xs => do
    if (← less x last) == expect then leadingRun less expect x (x :: run) xs
    else pure (run, x :: xs)

/-- The place for `pivot` between `lo` and `hi`: halves the range until it is empty. -/
def placeFor (less : α → α → m Bool) (sorted : Array α) (pivot : α) :
    Nat → Nat → Nat → m Nat
  | 0, lo, _ => pure lo
  | fuel + 1, lo, hi =>
    if lo < hi then
      let mid := lo + (hi - lo) / 2
      match sorted[mid]? with
      | none => pure lo
      | some item => do
        if ← less pivot item then placeFor less sorted pivot fuel lo mid
        else placeFor less sorted pivot fuel (mid + 1) hi
    else pure lo

def insertEach (less : α → α → m Bool) : List α → List α → m (List α)
  | sorted, [] => pure sorted
  | sorted, x :: xs => do
    let place ← placeFor less sorted.toArray x sorted.length 0 sorted.length
    insertEach less (sorted.take place ++ x :: sorted.drop place) xs

def sortM (less : α → α → m Bool) : List α → m (List α)
  | [] => pure []
  | [x] => pure [x]
  | x :: y :: rest => do
    let falling ← less y x
    let (run, later) ← leadingRun less falling y [y, x] rest
    insertEach less (if falling then run else run.reverse) later

end SuiteTidy.Order
