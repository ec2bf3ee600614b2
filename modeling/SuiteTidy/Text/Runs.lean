/-!
Membership in a set of code points that is given as an increasing list of runs.
-/

set_option autoImplicit false
set_option relaxedAutoImplicit false

namespace SuiteTidy.Text

/-- Whether `n` lies in one of the runs. Each run is its first and last member, and the runs stand
in increasing order, so the search stops at the first run that starts above `n`. -/
def inRuns : List (Nat × Nat) → Nat → Bool
  | [], _ => false
  | (lo, hi) :: rest, n => if n < lo then false else if n ≤ hi then true else inRuns rest n

/-- The place of `n` in the run that holds it, counted from the start of the run. -/
def placeInRuns? : List (Nat × Nat) → Nat → Option Nat
  | [], _ => none
  | (lo, hi) :: rest, n =>
    if n < lo then none else if n ≤ hi then some (n - lo) else placeInRuns? rest n

end SuiteTidy.Text
