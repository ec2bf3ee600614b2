import SuiteTidy.Text.Blank
import SuiteTidy.Text.Word

/-!
Reading integers as people write them: blanks around, a sign, digits of any script, and single
underscores between digits.
-/

set_option autoImplicit false
set_option relaxedAutoImplicit false

namespace SuiteTidy.Text

/-- The value of digits with single underscores between them; `n` stands for the digits so far. -/
def digitsFrom (n : Nat) : List Char → Option Nat
  | [] => some n
  | '_' :: c :: cs =>
    match digitValue? c with
    | some d => digitsFrom (10 * n + d) cs
    | none => none
  | c :: cs =>
    match digitValue? c with
    | some d => digitsFrom (10 * n + d) cs
    | none => none

def digits? : List Char → Option Nat
  | [] => none
  | c :: cs =>
    match digitValue? c with
    | some d => digitsFrom d cs
    | none => none

def integer? (s : String) : Option Int :=
  match trim s.toList with
  | '-' :: cs => (digits? cs).map fun n => -(n : Int)
  | '+' :: cs => (digits? cs).map fun n => (n : Int)
  | cs => (digits? cs).map fun n => (n : Int)

end SuiteTidy.Text
