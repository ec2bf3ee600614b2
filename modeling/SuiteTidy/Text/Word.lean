import SuiteTidy.Text.Runs
import SuiteTidy.Text.WordRuns

/-!
Word characters and decimal digits.
-/

set_option autoImplicit false
set_option relaxedAutoImplicit false

namespace SuiteTidy.Text

def isWord (c : Char) : Bool :=
  c.isAlphanum || c == '_' || inRuns wordRuns c.toNat

def digitValue? (c : Char) : Option Nat :=
  if c.isDigit then some (c.toNat - '0'.toNat)
  else (placeInRuns? digitRuns c.toNat).map (· % 10)

def isDecimal (c : Char) : Bool := (digitValue? c).isSome

end SuiteTidy.Text
