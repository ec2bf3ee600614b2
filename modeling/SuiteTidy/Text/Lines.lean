/-!
Cutting a text at a character and putting it together again.
-/

set_option autoImplicit false
set_option relaxedAutoImplicit false

namespace SuiteTidy.Text

/-- The pieces between line feeds. There is always at least one piece. -/
def splitLines (cs : List Char) : List (List Char) := cs.splitOn '\n'

def startsWith : List Char → List Char → Bool
  | _, [] => true
  | [], _ :: _ => false
  | c :: cs, p :: ps => c == p && startsWith cs ps

def afterStart? : List Char → List Char → Option (List Char)
  | cs, [] => some cs
  | [], _ :: _ => none
  | c :: cs, p :: ps => if c = p then afterStart? cs ps else none

def occurs (p : List Char) : List Char → Bool
  | [] => p.isEmpty
  | c :: cs => startsWith (c :: cs) p || occurs p cs

def afterFirst? (p : List Char) : List Char → Option (List Char)
  | [] => if p.isEmpty then some [] else none
  | c :: cs =>
    match afterStart? (c :: cs) p with
    | some rest => some rest
    | none => afterFirst? p cs

/-- Replaces every occurrence of a nonempty text, from the left and without overlaps; `skip`
counts the characters of the current occurrence that are still to be passed over. -/
def replaceFrom (old new : List Char) : Nat → List Char → List Char
  | _, [] => []
  | skip + 1, _ :: cs => replaceFrom old new skip cs
  | 0, c :: cs =>
    if startsWith (c :: cs) old then new ++ replaceFrom old new (old.length - 1) cs
    else c :: replaceFrom old new 0 cs

def replaceAll (old new cs : List Char) : List Char := replaceFrom old new 0 cs

def countFrom (p : List Char) : Nat → List Char → Nat
  | _, [] => 0
  | skip + 1, _ :: cs => countFrom p skip cs
  | 0, c :: cs =>
    if startsWith (c :: cs) p then 1 + countFrom p (p.length - 1) cs else countFrom p 0 cs

def countOf (p cs : List Char) : Nat := countFrom p 0 cs

/-- Every line end, a carriage return with or without a line feed, becomes a line feed. -/
def normalNewlines : List Char → List Char
  | [] => []
  | '\r' :: '\n' :: cs => '\n' :: normalNewlines cs
  | '\r' :: cs => '\n' :: normalNewlines cs
  | c :: cs => c :: normalNewlines cs

end SuiteTidy.Text

namespace SuiteTidy

def linesOf (s : String) : List String := (Text.splitLines s.toList).map String.ofList

def unlines (ls : List String) : String := "\n".intercalate ls

def hasText (s p : String) : Bool := Text.occurs p.toList s.toList

def replaced (s old new : String) : String :=
  String.ofList (Text.replaceAll old.toList new.toList s.toList)

end SuiteTidy
