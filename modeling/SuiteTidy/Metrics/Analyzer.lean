import SuiteTidy.Fault
import SuiteTidy.TestFile

/-!
Analyzers of test files: what each of them says about itself, and which files it takes.
-/

set_option autoImplicit false
set_option relaxedAutoImplicit false

namespace SuiteTidy

structure Analyzer where
  name : String
deriving Repr, DecidableEq, Inhabited

namespace Analyzer

def version (_ : Analyzer) : String := "1.0.0"

def supports (_ : Analyzer) (_ : TestFile) : Bool := true

/-- Refuses no file at all, and a file about which nothing is known. -/
def admits (_ : Analyzer) : Option (Option FileFacts) → Except Fault Bool
  | none => .error .noFile
  | some none => .error .noMetadata
  | some (some _) => .ok true

end Analyzer
end SuiteTidy
