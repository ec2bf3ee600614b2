import SuiteTidy.Files.Path
import SuiteTidy.Moment.Basic
import SuiteTidy.Number.Basic

/-!
Data whose shape is known only when it is met: what configuration files, stored records and report
inputs hold. The fields of a dictionary keep the order in which they were put in.
-/

set_option autoImplicit false
set_option relaxedAutoImplicit false

namespace SuiteTidy

inductive Datum where
  | null
  | bool (b : Bool)
  | int (n : Int)
  | real (x : Float)
  | text (s : String)
  | bytes (b : List UInt8)
  | path (p : Path)
  | moment (m : Moment)
  /-- A member of a closed group of names, and the word that stands for it in records. -/
  | member (group name word : String)
  /-- The name of a kind of value. -/
  | kind (name : String)
  /-- A failure that was kept: its class and its words. -/
  | failure (class_ words : String)
  | list (items : List Datum)
  | tuple (items : List Datum)
  | dict (fields : List (Datum × Datum))
deriving Inhabited

namespace Datum

def kindName : Datum → String
  | null => "NoneType"
  | bool _ => "bool"
  | int _ => "int"
  | real _ => "float"
  | text _ => "str"
  | bytes _ => "bytes"
  | path _ => "PosixPath"
  | moment _ => "datetime"
  | member group _ _ => group
  | kind _ => "type"
  | failure c _ => c
  | list _ => "list"
  | tuple _ => "tuple"
  | dict _ => "dict"

/-- Whether a value counts as true: all but nothing, false, zero and what is empty. -/
def truthy : Datum → Bool
  | null => false
  | bool b => b
  | int n => n != 0
  | real x => x != 0.0
  | text s => s != ""
  | bytes b => !b.isEmpty
  | list xs => !xs.isEmpty
  | tuple xs => !xs.isEmpty
  | dict fs => !fs.isEmpty
  | _ => true

/-- The number that a value is; true and false count as one and zero. -/
def number? : Datum → Option Number
  | bool b => some (.int (if b then 1 else 0))
  | int n => some (.int n)
  | real x => some (.real x)
  | _ => none

def ofNumber : Number → Datum
  | .int n => int n
  | .real x => real x

def texts (ss : List String) : Datum := list (ss.map text)

def record (fields : List (String × Datum)) : Datum := dict (fields.map fun (k, v) => (text k, v))

def ofOption {α : Type} (f : α → Datum) : Option α → Datum
  | none => null
  | some a => f a

def nat (n : Nat) : Datum := int n

mutual
/-- Whether two values are equal. Numbers are compared by value across their kinds, and
dictionaries without regard to order. The first argument limits the depth. -/
def sameTo : Nat → Datum → Datum → Bool
  | 0, _, _ => false
  | _ + 1, null, null => true
  | _ + 1, text a, text b => a == b
  | _ + 1, bytes a, bytes b => a == b
  | _ + 1, path a, path b => a == b
  | _ + 1, moment a, moment b => a == b
  | _ + 1, member g a _, member h b _ => g == h && a == b
  | _ + 1, kind a, kind b => a == b
  | fuel + 1, list a, list b => sameAll fuel a b
  | fuel + 1, tuple a, tuple b => sameAll fuel a b
  | fuel + 1, dict a, dict b => a.length == b.length && sameFields fuel a b
  | _ + 1, a, b =>
    match a.number?, b.number? with
    | some x, some y => x.same y
    | _, _ => false

def sameAll : Nat → List Datum → List Datum → Bool
  | _, [], [] => true
  | 0, _, _ => false
  | fuel + 1, a :: as, b :: bs => sameTo fuel a b && sameAll fuel as bs
  | _, _, _ => false

/-- Whether every field of the first list has an equal field in the second. -/
def sameFields : Nat → List (Datum × Datum) → List (Datum × Datum) → Bool
  | _, [], _ => true
  | 0, _, _ => false
  | fuel + 1, (k, v) :: rest, fields =>
    fields.any (fun (k', v') => sameTo fuel k k' && sameTo fuel v v') && sameFields fuel rest fields
end

mutual
/-- A bound on the depth of a value and the length of its lists. -/
def weight : Datum → Nat
  | list xs => 1 + weightAll xs
  | tuple xs => 1 + weightAll xs
  | dict fs => 1 + weightFields fs
  | _ => 1

def weightAll : List Datum → Nat
  | [] => 1
  | x :: xs => 1 + weight x + weightAll xs

def weightFields : List (Datum × Datum) → Nat
  | [] => 1
  | (k, v) :: rest => 1 + weight k + weight v + weightFields rest
end

def same (a b : Datum) : Bool := sameTo (a.weight + 1) a b

def lookup (key : Datum) : List (Datum × Datum) → Option Datum
  | [] => none
  | (k, v) :: rest => if k.same key then some v else lookup key rest

/-- The fields with one of them set: in its old place if the key is known, at the end otherwise. -/
def put (key value : Datum) : List (Datum × Datum) → List (Datum × Datum)
  | [] => [(key, value)]
  | (k, v) :: rest => if k.same key then (k, value) :: rest else (k, v) :: put key value rest

def remove (key : Datum) (fields : List (Datum × Datum)) : List (Datum × Datum) :=
  fields.filter fun (k, _) => !k.same key

def field? (key : String) : Datum → Option Datum
  | dict fields => lookup (text key) fields
  | _ => none

end Datum
end SuiteTidy
