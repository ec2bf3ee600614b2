import SuiteTidy.Fault

/-!
References to files, as they come from outside: a path, a bare text, or nothing at all.
-/

set_option autoImplicit false
set_option relaxedAutoImplicit false

namespace SuiteTidy

/-- A file as others name it: by a path, or by a bare text. -/
inductive FileRef where
  | path (p : Path)
  | plain (s : String)
deriving Repr, DecidableEq, Inhabited

namespace FileRef

def text : FileRef → String
  | path p => p.text
  | plain s => s

/-- Whether a reference names anything: all but the empty text. -/
def isGiven : FileRef → Bool
  | path _ => true
  | plain s => s != ""

def toDatum : FileRef → Datum
  | path p => .path p
  | plain s => .text s

def textOf : Option FileRef → String
  | none => "None"
  | some r => r.text

/-- The path of a reference that is one; a step that needs a part of a path fails
without it. -/
def asPath (part : String) : Option FileRef → Except Fault Path
  | some (path p) => .ok p
  | some (plain _) => .error (.datum (.missingAttribute "str" part))
  | none => .error (.datum (.missingAttribute "NoneType" part))

end FileRef

end SuiteTidy
