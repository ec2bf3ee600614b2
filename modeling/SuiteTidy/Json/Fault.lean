import SuiteTidy.Datum.Fault

/-!
Why a text is no JSON document, and why a value has no JSON form.
-/

set_option autoImplicit false
set_option relaxedAutoImplicit false

namespace SuiteTidy.Json

inductive Problem where
  | value
  | comma
  | colon
  | key
  | extra
  | openString
  | control
  | escape
  | unicodeEscape
  | byteOrderMark
deriving Repr, DecidableEq

def Problem.words : Problem → String
  | value => "Expecting value"
  | comma => "Expecting ',' delimiter"
  | colon => "Expecting ':' delimiter"
  | key => "Expecting property name enclosed in double quotes"
  | extra => "Extra data"
  | openString => "Unterminated string starting at"
  | control => "Invalid control character at"
  | escape => "Invalid \\escape"
  | unicodeEscape => "Invalid \\uXXXX escape"
  | byteOrderMark => "Unexpected UTF-8 BOM (decode using utf-8-sig)"

/-- A place in a text: line and column count from one, characters from zero. -/
structure Place where
  line : Nat
  column : Nat
  offset : Nat
deriving Repr, DecidableEq

def Place.after (cs : List Char) : Place :=
  { line := cs.count '\n' + 1
    column := (cs.reverse.takeWhile (· != '\n')).length + 1
    offset := cs.length }

inductive Fault where
  | malformed (problem : Problem) (place : Place)
  | tooManyDigits (count : Nat)
  | tooManyDigitsToWrite
  | unwritable (cause : DatumFault)
deriving Inhabited

/-- The most digits that an integer may have in a document. -/
def digitLimit : Nat := 4300

def Fault.message : Fault → String
  | malformed problem place =>
    problem.words ++ ": line " ++ toString place.line ++ " column " ++ toString place.column ++
      " (char " ++ toString place.offset ++ ")"
  | tooManyDigits count =>
    "Exceeds the limit (" ++ toString digitLimit ++
      " digits) for integer string conversion: value has " ++ toString count ++
      " digits; use sys.set_int_max_str_digits() to increase the limit"
  | tooManyDigitsToWrite =>
    "Exceeds the limit (" ++ toString digitLimit ++
      " digits) for integer string conversion" ++
      "; use sys.set_int_max_str_digits() to increase the limit"
  | unwritable cause => cause.message

end SuiteTidy.Json
