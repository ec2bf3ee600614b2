import SuiteTidy.Datum.Basic
import SuiteTidy.Decimal.Written
import SuiteTidy.Yaml.Node
import SuiteTidy.Yaml.Scalar

/-!
The value that a YAML document stands for. The last of several fields with one key counts. A time is
kept as its text.
-/

set_option autoImplicit false
set_option relaxedAutoImplicit false

namespace SuiteTidy.Yaml

def digitsIn (base : Nat) (ds : List Char) : Option Nat := do
  let vs ← ds.mapM Text.hexDigit?
  if ds.isEmpty then none else return vs.foldl (fun n d => base * n + d) 0

def sixtiethsValue (ps : List (List Char)) : Nat :=
  ps.foldl (fun n p => 60 * n + Decimal.digitsValue p) 0

def wholeValue (s : String) : Option Int := do
  let cs := s.toList.filter (· != '_')
  let size ← match Meaning.unsigned cs with
    | ['0'] => pure 0
    | '0' :: 'b' :: ds => digitsIn 2 ds
    | '0' :: 'x' :: ds => digitsIn 16 ds
    | '0' :: ds => digitsIn 8 ds
    | ds =>
      if ds.contains ':' then pure (sixtiethsValue (Meaning.pieces (· = ':') ds))
      else digitsIn 10 ds
  return if cs.head? = some '-' then -(size : Int) else size

def realValue (s : String) : Option Float :=
  let cs := s.toList.filter (· != '_')
  let negative := cs.head? = some '-'
  let signed (x : Float) : Float := if negative then -x else x
  let magnitude := (Meaning.unsigned cs).map Char.toLower
  match magnitude with
  | ['.', 'i', 'n', 'f'] => some (signed (1.0 / 0.0))
  | ['.', 'n', 'a', 'n'] => some (0.0 / 0.0)
  | _ =>
    if magnitude.contains ':' then
      let parts := (Meaning.pieces (· = ':') magnitude).reverse
      let step (sum : Float × Float) (p : List Char) : Float × Float :=
        (sum.1 + (Decimal.magnitude? false p).getD 0.0 * sum.2, sum.2 * 60.0)
      some (signed (parts.foldl step (0.0, 1.0)).1)
    else (Decimal.magnitude? false magnitude).map signed

def plainValue (s : String) : Option Datum :=
  match Meaning.of s with
  | .nothing => some .null
  | .truth b => some (.bool b)
  | .whole => (wholeValue s).map .int
  | .real => (realValue s).map .real
  | .mark => none
  | .time => some (.text s)
  | .text => some (.text s)

def isMerge : Node → Bool
  | .scalar s plain => plain && s == "<<"
  | _ => false

/-- The value of a key; a list or a mapping is none. -/
def keyValue : Node → Option Datum
  | .scalar s plain => if plain && s != "=" then plainValue s else some (.text s)
  | _ => none

/-- Fields put in one after another, so that the last with a key counts. -/
def lastOfEach (fields : List (Datum × Datum)) : List (Datum × Datum) :=
  fields.foldl (fun out (k, v) => Datum.put k v out) []

mutual
def valueOf : Node → Option Datum
  | .scalar s plain => if plain then plainValue s else some (.text s)
  | .sequence xs => do return .list (← valuesOf xs)
  | .mapping fs => do return .dict (lastOfEach ((← mergedOf fs) ++ (← fieldsOf fs)))

def valuesOf : List Node → Option (List Datum)
  | [] => some []
  | x :: xs => do return (← valueOf x) :: (← valuesOf xs)

/-- The fields of a mapping apart from those it merges. -/
def fieldsOf : List (Node × Node) → Option (List (Datum × Datum))
  | [] => some []
  | (k, v) :: rest => do
    if isMerge k then fieldsOf rest
    else return (← keyValue k, ← valueOf v) :: (← fieldsOf rest)

def mergedOf : List (Node × Node) → Option (List (Datum × Datum))
  | [] => some []
  | (k, v) :: rest => do
    if isMerge k then return (← mergeSource v) ++ (← mergedOf rest) else mergedOf rest

/-- The fields of what is merged: a mapping, or mappings of which the first counts most. -/
def mergeSource : Node → Option (List (Datum × Datum))
  | .mapping fs => do return (← mergedOf fs) ++ (← fieldsOf fs)
  | .sequence xs => mergeSources xs
  | .scalar _ _ => none

/-- The fields of merged mappings, the last mapping first. -/
def mergeSources : List Node → Option (List (Datum × Datum))
  | [] => some []
  | .mapping fs :: rest => do return (← mergeSources rest) ++ ((← mergedOf fs) ++ (← fieldsOf fs))
  | _ => none
end

def read? (text : String) : Option Datum := do valueOf (← node? text)

end SuiteTidy.Yaml
