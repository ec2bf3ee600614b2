import SuiteTidy.Datum.Fault

/-!
Looking into values whose shape is not known: items by key, members one after another, length, and
the order of two values. Each says why there is no answer when the value has the wrong shape.
-/

set_option autoImplicit false
set_option relaxedAutoImplicit false

namespace SuiteTidy.Datum

abbrev Found (α : Type) : Type := Except DatumFault α

def item (key : String) : Datum → Found Datum
  | dict fields =>
    match lookup (text key) fields with
    | some v => .ok v
    | none => .error (.missingKey (text key))
  | list _ => .error (.listIndex "str")
  | text _ => .error (.textIndex "str")
  | d => .error (.notIndexable d.kindName)

/-- The value of a text key of a dictionary, or another value if there is none. -/
def itemOr (d : Datum) (key : String) (other : Datum) : Found Datum :=
  match d with
  | dict fields => .ok ((lookup (text key) fields).getD other)
  | d => .error (.missingAttribute d.kindName "get")

/-- The members of a value, one after another: the keys of a dictionary, the characters of a
text. -/
def members : Datum → Found (List Datum)
  | list xs => .ok xs
  | tuple xs => .ok xs
  | dict fields => .ok (fields.map (·.1))
  | text s => .ok (s.toList.map fun c => text (String.singleton c))
  | bytes bs => .ok (bs.map fun b => int b.toNat)
  | d => .error (.notIterable d.kindName)

/-- The first items of a list, with a number below zero all but that many of the last. -/
def firstItems {α : Type} (n : Int) (xs : List α) : List α :=
  if n < 0 then xs.take (xs.length - n.natAbs) else xs.take n.toNat

def first (n : Int) : Datum → Found Datum
  | list xs => .ok (list (firstItems n xs))
  | tuple xs => .ok (tuple (firstItems n xs))
  | text s => .ok (text (String.ofList (firstItems n s.toList)))
  | bytes bs => .ok (bytes (firstItems n bs))
  | dict _ => .error (.notHashable "slice")
  | d => .error (.notIndexable d.kindName)

def size : Datum → Found Nat
  | list xs => .ok xs.length
  | tuple xs => .ok xs.length
  | dict fields => .ok fields.length
  | text s => .ok s.length
  | bytes bs => .ok bs.length
  | d => .error (.noLength d.kindName)

def textsOf (place : String) (d : Datum) : Found (List String) := do
  (← d.members).mapM fun
    | text s => .ok s
    | x => .error (.textExpected place x.kindName)

def asText (place : String) : Datum → Found String
  | text s => .ok s
  | d => .error (.textExpected place d.kindName)

end SuiteTidy.Datum
