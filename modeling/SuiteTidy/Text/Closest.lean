/-!
Words that are close to a given one. Two words share what is left when the longest common piece is
taken out and the same is done before and after it; words are close if the shared characters make up
at least three fifths of both.
-/

set_option autoImplicit false
set_option relaxedAutoImplicit false

namespace SuiteTidy.Text

def commonStart : List Char → List Char → Nat
  | a :: as, b :: bs => if a = b then commonStart as bs + 1 else 0
  | _, _ => 0

/-- The longest common piece: where it starts in each list, and its length. Of several, the one that
starts first in the first list, then in the second. -/
def longestCommon (as bs : List Char) : Nat × Nat × Nat :=
  (List.range as.length).foldl (fun best i =>
    (List.range bs.length).foldl (fun best j =>
      let n := commonStart (as.drop i) (bs.drop j)
      if best.2.2 < n then (i, j, n) else best) best) (0, 0, 0)

def sharedTo : Nat → List Char → List Char → Nat
  | 0, _, _ => 0
  | fuel + 1, as, bs =>
    let (i, j, n) := longestCommon as bs
    if n = 0 then 0
    else
      sharedTo fuel (as.take i) (bs.take j) + n + sharedTo fuel (as.drop (i + n)) (bs.drop (j + n))

def shared (a b : String) : Nat := sharedTo (a.length + 1) a.toList b.toList

/-- The words that are close to a word: at most three, the closest first. -/
def closest (word : String) (known : List String) : List String :=
  let scored := known.map fun k => (shared k word, k.length + word.length, k)
  let close := scored.filter fun (n, total, _) => 3 * total ≤ 10 * n
  let before (a b : Nat × Nat × String) : Bool :=
    let x := a.1 * b.2.1
    let y := b.1 * a.2.1
    decide (y < x) || (x == y && decide (b.2.2 ≤ a.2.2))
  ((close.mergeSort before).take 3).map fun (_, _, k) => k

end SuiteTidy.Text
