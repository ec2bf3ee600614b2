/-!
What an unquoted text in a YAML document means: nothing, a truth value, a number, a time, one of two
marks, or itself.
-/

set_option autoImplicit false
set_option relaxedAutoImplicit false

namespace SuiteTidy.Yaml

inductive Meaning where
  | nothing
  | truth (b : Bool)
  | whole
  | real
  | time
  | mark
  | text
deriving Repr, DecidableEq, Inhabited

namespace Meaning

def emptyWords : List String := ["", "~", "null", "Null", "NULL"]

def trueWords : List String := ["yes", "Yes", "YES", "true", "True", "TRUE", "on", "On", "ON"]

def falseWords : List String := ["no", "No", "NO", "false", "False", "FALSE", "off", "Off", "OFF"]

def markWords : List String := ["<<", "="]

def unsigned : List Char → List Char
  | '-' :: cs => cs
  | '+' :: cs => cs
  | cs => cs

def isDigitOrBar (c : Char) : Bool := c.isDigit || c = '_'

def pieces (p : Char → Bool) : List Char → List (List Char)
  | [] => [[]]
  | c :: cs =>
    if p c then [] :: pieces p cs
    else
      match pieces p cs with
      | [] => [[c]]
      | x :: xs => (c :: x) :: xs

def isCount : List Char → Bool
  | [] => false
  | c :: cs => c.isDigit && cs.all isDigitOrBar

def isSixtieth : List Char → Bool
  | [c] => c.isDigit
  | [a, b] => '0' ≤ a && a ≤ '5' && b.isDigit
  | _ => false

/-- Whether a list is a number in base sixty: pieces with colons between them. -/
def isSexagesimal (head : List Char → Bool) (cs : List Char) : Bool :=
  match pieces (· = ':') cs with
  | first :: x :: rest => head first && (x :: rest).all isSixtieth
  | _ => false

def isExponent : List Char → Bool
  | [] => true
  | e :: s :: ds =>
    (e = 'e' || e = 'E') && (s = '+' || s = '-') && !ds.isEmpty && ds.all Char.isDigit
  | _ => false

/-- Whether a list is an integer after its sign. -/
def isWholeMagnitude (cs : List Char) : Bool :=
  match cs with
  | ['0'] => true
  | '0' :: 'b' :: ds => !ds.isEmpty && ds.all fun c => c = '0' || c = '1' || c = '_'
  | '0' :: 'x' :: ds =>
    !ds.isEmpty && ds.all fun c =>
      isDigitOrBar c || ('a' ≤ c && c ≤ 'f') || ('A' ≤ c && c ≤ 'F')
  | '0' :: ds => !ds.isEmpty && ds.all fun c => ('0' ≤ c && c ≤ '7') || c = '_'
  | _ => isCount cs || isSexagesimal isCount cs

def isWhole (cs : List Char) : Bool := isWholeMagnitude (unsigned cs)

def isReal (cs : List Char) : Bool :=
  let magnitude := unsigned cs
  let whole := magnitude.takeWhile (· != '.')
  match magnitude.dropWhile (· != '.') with
  | '.' :: rest =>
    let tail := rest.dropWhile isDigitOrBar
    (isCount whole && isExponent tail) || (isSexagesimal isCount whole && tail.isEmpty) ||
      (cs.head? = some '.' && isCount (rest.takeWhile isDigitOrBar) && isExponent tail) ||
      (whole.isEmpty && ["inf", "Inf", "INF"].contains (String.ofList rest)) ||
      (cs.head? = some '.' && ["nan", "NaN", "NAN"].contains (String.ofList rest))
  | _ => false

def isDigits (least most : Nat) (cs : List Char) : Bool :=
  decide (least ≤ cs.length) && decide (cs.length ≤ most) && cs.all Char.isDigit

/-- Whether a list is nothing or a distance from the zero meridian. -/
def isZone (cs : List Char) : Bool :=
  match cs.dropWhile fun c => c = ' ' || c = '\t' with
  | [] => cs.isEmpty
  | ['Z'] => true
  | s :: rest =>
    (s = '+' || s = '-') &&
      match pieces (· = ':') rest with
      | [h] => isDigits 1 2 h
      | [h, m] => isDigits 1 2 h && isDigits 2 2 m
      | _ => false

def isClock (cs : List Char) : Bool :=
  let hour := cs.takeWhile Char.isDigit
  match cs.dropWhile Char.isDigit with
  | ':' :: m :: n :: ':' :: s :: t :: rest =>
    let rest := match rest with
      | '.' :: more => more.dropWhile Char.isDigit
      | _ => rest
    isDigits 1 2 hour && [m, n, s, t].all Char.isDigit && isZone rest
  | _ => false

def isTime (cs : List Char) : Bool :=
  let isDatePart (c : Char) : Bool := c.isDigit || c = '-'
  let rest := cs.dropWhile isDatePart
  match pieces (· = '-') (cs.takeWhile isDatePart) with
  | [y, m, d] =>
    isDigits 4 4 y &&
      ((rest.isEmpty && isDigits 2 2 m && isDigits 2 2 d) ||
       (isDigits 1 2 m && isDigits 1 2 d &&
        match rest with
        | 'T' :: more => isClock more
        | 't' :: more => isClock more
        | ' ' :: more => isClock (more.dropWhile fun c => c = ' ' || c = '\t')
        | '\t' :: more => isClock (more.dropWhile fun c => c = ' ' || c = '\t')
        | _ => false))
  | _ => false

def of (s : String) : Meaning :=
  let cs := s.toList
  if emptyWords.contains s then .nothing
  else if trueWords.contains s then .truth true
  else if falseWords.contains s then .truth false
  else if markWords.contains s then .mark
  else if isReal cs then .real
  else if isWhole cs then .whole
  else if isTime cs then .time
  else .text

end Meaning
end SuiteTidy.Yaml
