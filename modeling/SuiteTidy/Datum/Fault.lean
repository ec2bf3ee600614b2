import SuiteTidy.Datum.Shown

/-!
What goes wrong when a value does not have the shape that a step asks for, and the words for it.
-/

set_option autoImplicit false
set_option relaxedAutoImplicit false

namespace SuiteTidy

/-- A value that does not fit where it is used. Kinds are given by their words. -/
inductive DatumFault where
  | notIterable (kind : String)
  | notSearchable (kind : String)
  | bytesNeeded (kind : String)
  | notJoinable
  | joinItem (index : Nat) (kind : String)
  | noLength (kind : String)
  | notIndexable (kind : String)
  | textIndex (kind : String)
  | listIndex (kind : String)
  | notAssignable (kind : String)
  | missingKey (key : Datum)
  | missingAttribute (kind name : String)
  | notOrdered (sign left right : String)
  /-- Two points in time of which one alone has a known distance from the reference zone. -/
  | zonesDiffer
  | notCombined (sign left right : String)
  | notRepeatable (kind : String)
  | notMatchable (kind : String)
  | bytesMatched
  | notPathLike (kind : String)
  | notTextPath (kind : String)
  | notHashable (kind : String)
  | indexOutOfRange
  | tooFewItems (expected got : Nat)
  | tooManyItems (expected : Nat)
  | notMember (value : Datum) (group : String)
  | notInteger (text : String)
  | badKey (kind : String)
  | textExpected (place kind : String)
  | notDateText
  | notWritable (kind : String)
  | notShowable (kind : String)
deriving Inhabited

namespace DatumFault

def message : DatumFault → String
  | notIterable k => "'" ++ k ++ "' object is not iterable"
  | notSearchable k => "argument of type '" ++ k ++ "' is not iterable"
  | bytesNeeded k => "a bytes-like object is required, not '" ++ k ++ "'"
  | notJoinable => "can only join an iterable"
  | joinItem i k => "sequence item " ++ toString i ++ ": expected str instance, " ++ k ++ " found"
  | noLength k => "object of type '" ++ k ++ "' has no len()"
  | notIndexable k => "'" ++ k ++ "' object is not subscriptable"
  | textIndex k => "string indices must be integers, not '" ++ k ++ "'"
  | listIndex k => "list indices must be integers or slices, not " ++ k
  | notAssignable k => "'" ++ k ++ "' object does not support item assignment"
  | missingKey key => key.shown
  | missingAttribute k name => "'" ++ k ++ "' object has no attribute '" ++ name ++ "'"
  | notOrdered sign l r =>
    "'" ++ sign ++ "' not supported between instances of '" ++ l ++ "' and '" ++ r ++ "'"
  | zonesDiffer => "can't compare offset-naive and offset-aware datetimes"
  | notCombined sign l r =>
    "unsupported operand type(s) for " ++ sign ++ ": '" ++ l ++ "' and '" ++ r ++ "'"
  | notRepeatable k => "can't multiply sequence by non-int of type '" ++ k ++ "'"
  | notMatchable k => "expected string or bytes-like object, got '" ++ k ++ "'"
  | bytesMatched => "cannot use a string pattern on a bytes-like object"
  | notTextPath k =>
    "argument should be a str object or an os.PathLike object returning str, not <class '" ++ k ++
      "'>"
  | notPathLike k => "expected str, bytes or os.PathLike object, not " ++ k
  | notHashable k => "unhashable type: '" ++ k ++ "'"
  | indexOutOfRange => "list index out of range"
  | tooFewItems e g =>
    "not enough values to unpack (expected " ++ toString e ++ ", got " ++ toString g ++ ")"
  | tooManyItems e => "too many values to unpack (expected " ++ toString e ++ ")"
  | notMember v group => v.shown ++ " is not a valid " ++ group
  | notInteger t => "invalid literal for int() with base 10: " ++ quoted t
  | badKey k => "keys must be str, int, float, bool or None, not " ++ k
  | notWritable k => "Object of type " ++ k ++ " is not JSON serializable"
  | notShowable k =>
    "unable to render " ++ k ++ "; a string or other renderable object is required"
  | notDateText => "fromisoformat: argument must be str"
  | textExpected place k => place ++ " must be str, not " ++ k

end DatumFault
end SuiteTidy
