import SuiteTidy.Json.Fault

/-!
Reading JSON documents. Beside the standard forms the words `NaN`, `Infinity` and `-Infinity` are
numbers. Of two fields with one key the later value counts, at the place of the earlier field.
-/

set_option autoImplicit false
set_option relaxedAutoImplicit false

namespace SuiteTidy.Json

/-- Where and why reading stopped: the problem and how many characters are left from its place. -/
inductive Stop where
  | at_ (problem : Problem) (left : Nat)
  | digits (count : Nat)
deriving Repr, DecidableEq

/-- A result, mostly with the rest of the text, or the reason to stop. -/
abbrev Step (α : Type) : Type := Except Stop α

def isSpace (c : Char) : Bool := c == ' ' || c == '\t' || c == '\n' || c == '\r'

def skipSpace (cs : List Char) : List Char := cs.dropWhile isSpace

def hexFour? : List Char → Option (Nat × List Char)
  | a :: b :: c :: d :: rest => do
    let a ← Text.hexDigit? a
    let b ← Text.hexDigit? b
    let c ← Text.hexDigit? c
    let d ← Text.hexDigit? d
    return (((a * 16 + b) * 16 + c) * 16 + d, rest)
  | _ => none

def simpleEscape? (c : Char) : Option Char :=
  match c with
  | '"' => some '"'
  | '\\' => some '\\'
  | '/' => some '/'
  | 'b' => some '\x08'
  | 'f' => some '\x0c'
  | 'n' => some '\n'
  | 'r' => some '\r'
  | 't' => some '\t'
  | _ => none

def isHighHalf (n : Nat) : Bool := decide (0xD800 ≤ n ∧ n < 0xDC00)

def isLowHalf (n : Nat) : Bool := decide (0xDC00 ≤ n ∧ n < 0xE000)

/-- The character of a code unit; half of a pair on its own becomes the replacement character. -/
def unitChar (n : Nat) : Char :=
  if isHighHalf n || isLowHalf n then '�' else Char.ofNat n

/-- Reads four hexadecimal digits after a backslash and the letter u, of which `cs` is the rest. At
least one character must follow the digits. -/
def unicodeUnit (cs : List Char) : Step (Nat × List Char) :=
  if cs.length ≤ 4 then .error (.at_ .unicodeEscape (cs.length + 1))
  else match hexFour? cs with
    | some (n, rest) => .ok (n, rest)
    | none => .error (.at_ .unicodeEscape (cs.length + 1))

def unicodeChar (cs : List Char) : Step (Char × List Char) := do
  let (n, rest) ← unicodeUnit cs
  if isHighHalf n && decide (rest.length > 6) then
    match rest with
    | '\\' :: 'u' :: more =>
      let (low, rest') ← unicodeUnit more
      if isLowHalf low then
        return (Char.ofNat (0x10000 + (n - 0xD800) * 0x400 + (low - 0xDC00)), rest')
      else return (unitChar n, rest)
    | _ => return (unitChar n, rest)
  else return (unitChar n, rest)

/-- Reads the characters of a string up to its closing quote. `opened` is the number of characters
left at the opening quote, and `acc` holds the characters read so far, in reverse. -/
def stringBody (opened : Nat) : Nat → List Char → List Char → Step (String × List Char)
  | 0, _, _ => .error (.at_ .openString opened)
  | _ + 1, _, [] => .error (.at_ .openString opened)
  | fuel + 1, acc, c :: cs =>
    if c = '"' then .ok (String.ofList acc.reverse, cs)
    else if c = '\\' then
      match cs with
      | [] => .error (.at_ .openString opened)
      | 'u' :: rest => do
        let (ch, rest') ← unicodeChar rest
        stringBody opened fuel (ch :: acc) rest'
      | e :: rest =>
        match simpleEscape? e with
        | some ch => stringBody opened fuel (ch :: acc) rest
        | none => .error (.at_ .escape (cs.length + 1))
    else if c.toNat < 32 then .error (.at_ .control (cs.length + 1))
    else stringBody opened fuel (c :: acc) cs

def readString (cs : List Char) : Step (String × List Char) :=
  stringBody (cs.length + 1) (cs.length + 1) [] cs

def spanDigits (cs : List Char) : List Char × List Char :=
  (cs.takeWhile Char.isDigit, cs.dropWhile Char.isDigit)

/-- The digits before the point: a single zero, or digits that do not start with zero. -/
def wholeDigits? (cs : List Char) : Option (List Char × List Char) :=
  match cs with
  | '0' :: rest => some (['0'], rest)
  | c :: _ => if c.isDigit then some (spanDigits cs) else none
  | [] => none

def fractionDigits? (cs : List Char) : Option (List Char × List Char) :=
  match cs with
  | '.' :: rest => if (rest.takeWhile Char.isDigit).isEmpty then none else some (spanDigits rest)
  | _ => none

def exponentDigits? (cs : List Char) : Option (Int × List Char) :=
  match cs with
  | e :: rest =>
    if e = 'e' ∨ e = 'E' then
      let (negative, body) : Bool × List Char :=
        match rest with
        | '-' :: more => (true, more)
        | '+' :: more => (false, more)
        | _ => (false, rest)
      let (ds, after) := spanDigits body
      if ds.isEmpty then none
      else
        let size : Int := Decimal.digitsValue ds
        some (if negative then -size else size, after)
    else none
  | [] => none

/-- Reads a number whose sign has been read; `left` is the number of characters left at the start of
the number. -/
def magnitude (left : Nat) (negative : Bool) (cs : List Char) : Step (Datum × List Char) :=
  match wholeDigits? cs with
  | none => .error (.at_ .value left)
  | some (whole, rest) =>
    let (fraction, rest', pointed) : List Char × List Char × Bool :=
      match fractionDigits? rest with
      | some (ds, after) => (ds, after, true)
      | none => ([], rest, false)
    match exponentDigits? rest' with
    | some (e, after) =>
      .ok (.real (Decimal.ofDecimal negative (Decimal.digitsValue (whole ++ fraction))
        (e - fraction.length)), after)
    | none =>
      if pointed then
        .ok (.real (Decimal.ofDecimal negative (Decimal.digitsValue (whole ++ fraction))
          (-(fraction.length : Int))), rest')
      else if whole.length > digitLimit then .error (.digits whole.length)
      else
        let size : Int := Decimal.digitsValue whole
        .ok (.int (if negative then -size else size), rest')

def number (cs : List Char) : Step (Datum × List Char) :=
  match cs with
  | '-' :: rest => magnitude cs.length true rest
  | _ => magnitude cs.length false cs

def word? (cs : List Char) : Option (Datum × List Char) :=
  [("null", Datum.null), ("true", .bool true), ("false", .bool false), ("NaN", .real (0.0 / 0.0)),
    ("Infinity", .real (1.0 / 0.0)), ("-Infinity", .real (-(1.0 / 0.0)))].findSome? fun (w, v) =>
      (Text.afterStart? cs w.toList).map fun rest => (v, rest)

mutual
/-- Reads a value. The first argument bounds the number of steps. -/
def value : Nat → List Char → Step (Datum × List Char)
  | 0, cs => .error (.at_ .value cs.length)
  | fuel + 1, cs =>
    match cs with
    | '"' :: rest => do
      let (s, rest') ← readString rest
      return (.text s, rest')
    | '[' :: rest =>
      match skipSpace rest with
      | ']' :: rest' => .ok (.list [], rest')
      | inner => do
        let (xs, rest') ← items fuel inner
        return (.list xs, rest')
    | '\x7b' :: rest =>
      match skipSpace rest with
      | '\x7d' :: rest' => .ok (.dict [], rest')
      | inner => do
        let (fs, rest') ← fields fuel [] inner
        return (.dict fs, rest')
    | _ =>
      match word? cs with
      | some found => .ok found
      | none => number cs

def items : Nat → List Char → Step (List Datum × List Char)
  | 0, cs => .error (.at_ .value cs.length)
  | fuel + 1, cs => do
    let (x, rest) ← value fuel cs
    match skipSpace rest with
    | ']' :: rest' => return ([x], rest')
    | ',' :: rest' =>
      let (xs, rest'') ← items fuel (skipSpace rest')
      return (x :: xs, rest'')
    | other => .error (.at_ .comma other.length)

def fields : Nat → List (Datum × Datum) → List Char → Step (List (Datum × Datum) × List Char)
  | 0, _, cs => .error (.at_ .key cs.length)
  | fuel + 1, before, cs =>
    match cs with
    | '"' :: rest => do
      let (k, rest) ← readString rest
      match skipSpace rest with
      | ':' :: rest => do
        let (v, rest) ← value fuel (skipSpace rest)
        let before := Datum.put (.text k) v before
        match skipSpace rest with
        | '\x7d' :: rest => return (before, rest)
        | ',' :: rest => fields fuel before (skipSpace rest)
        | other => .error (.at_ .comma other.length)
      | other => .error (.at_ .colon other.length)
    | _ => .error (.at_ .key cs.length)
end

def document (cs : List Char) : Except Stop Datum :=
  match cs with
  | '﻿' :: _ => .error (.at_ .byteOrderMark cs.length)
  | _ => do
    let (v, rest) ← value (2 * cs.length + 2) (skipSpace cs)
    match skipSpace rest with
    | [] => return v
    | other => .error (.at_ .extra other.length)

def read (s : String) : Except Fault Datum :=
  let cs := s.toList
  (document cs).mapError fun
    | .at_ problem left => .malformed problem (Place.after (cs.take (cs.length - left)))
    | .digits count => .tooManyDigits count

/-- Whether a text is a document. Integers with too many digits are no concern of this test, so the
answer is then left open. -/
def isDocument (s : String) : Except Fault Bool :=
  match read s with
  | .ok _ => .ok true
  | .error (.malformed _ _) => .ok false
  | .error other => .error other

end SuiteTidy.Json
