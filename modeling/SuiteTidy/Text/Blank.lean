import SuiteTidy.Text.Runs

/-!
Blank characters, trimming, and the words between blanks.
-/

set_option autoImplicit false
set_option relaxedAutoImplicit false

namespace SuiteTidy.Text

/-- The blanks: the ASCII controls from tab to carriage return, the four separators below the
space, the space, and the space characters outside ASCII. -/
def blankRuns : List (Nat × Nat) :=
  [(9, 13), (28, 32), (133, 133), (160, 160), (5760, 5760), (8192, 8202), (8232, 8233),
   (8239, 8239), (8287, 8287), (12288, 12288)]

def isBlank (c : Char) : Bool := inRuns blankRuns c.toNat

def trimLeft (cs : List Char) : List Char := cs.dropWhile isBlank

def trimRight (cs : List Char) : List Char := (cs.reverse.dropWhile isBlank).reverse

def trim (cs : List Char) : List Char := trimRight (trimLeft cs)

def trimSet (drop : Char → Bool) (cs : List Char) : List Char :=
  ((cs.dropWhile drop).reverse.dropWhile drop).reverse

/-- The words of a text, given the reversed word that has been read so far. -/
def wordsFrom : List Char → List Char → List (List Char)
  | [], [] => []
  | open_, [] => [open_.reverse]
  | open_, c :: cs =>
    if isBlank c then
      match open_ with
      | [] => wordsFrom [] cs
      | _ => open_.reverse :: wordsFrom [] cs
    else wordsFrom (c :: open_) cs

/-- The maximal runs of characters that are not blank, in order. -/
def words (cs : List Char) : List (List Char) := wordsFrom [] cs

end SuiteTidy.Text

namespace SuiteTidy

def trimmed (s : String) : String := String.ofList (Text.trim s.toList)

end SuiteTidy
