import SuiteTidy.Text.Runs
import SuiteTidy.Text.CaseRuns

/-!
Lower case and capitalised words. A capital sigma at the end of a word gets the final form.
-/

set_option autoImplicit false
set_option relaxedAutoImplicit false

namespace SuiteTidy.Text

/-- The code point that a list of runs moves `n` to; `n` itself when no run holds it. -/
def movedBy : List CaseRun → Nat → Nat
  | [], n => n
  | run :: rest, n =>
    if n < run.first then n
    else if n ≤ run.last ∧ (n - run.first) % run.step = 0 then ((n : Int) + run.delta).toNat
    else movedBy rest n

def lowerChar (c : Char) : List Char :=
  if c.toNat < 128 then [c.toLower]
  else match lowerSpecials.lookup c.toNat with
    | some ns => ns.map Char.ofNat
    | none => [Char.ofNat (movedBy lowerRuns c.toNat)]

def titleChar (c : Char) : List Char :=
  if c.toNat < 128 then [c.toUpper]
  else match titleSpecials.lookup c.toNat with
    | some ns => ns.map Char.ofNat
    | none => [Char.ofNat (movedBy titleRuns c.toNat)]

def isCased (c : Char) : Bool := inRuns casedRuns c.toNat

/-- Whether a character does not interrupt the word it stands in. -/
def isCaseIgnorable (c : Char) : Bool := inRuns caseIgnorableRuns c.toNat

/-- Whether the first character that interrupts or continues the word is a letter with a case. -/
def meetsCased (cs : List Char) : Bool :=
  match cs.dropWhile isCaseIgnorable with
  | [] => false
  | c :: _ => isCased c

/-- Lower case of a text, given the reversed text in front of it. -/
def lowerFrom : List Char → List Char → List Char
  | _, [] => []
  | before, c :: cs =>
    (if c = 'Σ' then
      (if meetsCased before && !meetsCased cs then ['ς'] else ['σ'])
    else lowerChar c) ++ lowerFrom (c :: before) cs

def lower (cs : List Char) : List Char := lowerFrom [] cs

def capitalize : List Char → List Char
  | [] => []
  | c :: cs => titleChar c ++ lowerFrom [c] cs

end SuiteTidy.Text

namespace SuiteTidy

def lowered (s : String) : String := String.ofList (Text.lower s.toList)

def capitalized (s : String) : String := String.ofList (Text.capitalize s.toList)

end SuiteTidy
