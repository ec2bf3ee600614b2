import SuiteTidy.Datum.Basic

/-!
The bytes of packed values: a tag for the kind of a value, then its contents. Texts, lists and
dictionaries are marked so that a later part can refer to them by their number.
-/

set_option autoImplicit false
set_option relaxedAutoImplicit false

namespace SuiteTidy.Packed

def lowFirst (size : Nat) (n : Nat) : List UInt8 :=
  (List.range size).map fun k => (n / Nat.pow 256 k).toUInt8

def highFirst (size : Nat) (n : Nat) : List UInt8 := (lowFirst size n).reverse

def mark : UInt8 := 0x94

/-- Bytes, and how many marks are among them. -/
structure Piece where
  bytes : List UInt8
  marks : Nat := 0
deriving Repr, DecidableEq, Inhabited

def Piece.andThen (a b : Piece) : Piece :=
  { bytes := a.bytes ++ b.bytes, marks := a.marks + b.marks }

def ofText (s : String) : Piece :=
  let body := s.toUTF8.toList
  let head := if body.length < 256 then 0x8c :: lowFirst 1 body.length
    else 0x58 :: lowFirst 4 body.length
  { bytes := head ++ body ++ [mark], marks := 1 }

/-- An integer, in as few bytes as its size allows. -/
def ofInt (n : Int) : Piece :=
  if 0 ≤ n ∧ n < 256 then { bytes := 0x4b :: lowFirst 1 n.toNat }
  else if 0 ≤ n ∧ n < 65536 then { bytes := 0x4d :: lowFirst 2 n.toNat }
  else { bytes := 0x4a :: lowFirst 4 (n % 4294967296).toNat }

def ofMoment (m : Moment) : Piece :=
  let d := Moment.dateOf (m.micros / Moment.perDay)
  let (h, mi, s) := Moment.clockFields (m.micros % Moment.perDay / Moment.perSecond)
  { bytes := [0x43, 0x0a] ++ highFirst 2 d.year.toNat ++
      [d.month, d.day, h, mi, s].map (fun n => n.toNat.toUInt8) ++
      highFirst 3 (m.micros % Moment.perSecond).toNat ++ [mark, 0x85, mark, 0x52, mark]
    marks := 3 }

/-- A container: its opening tag, and its members with the tag for one or for several of them. -/
def container (opening one several : UInt8) (members : List Piece) : Piece :=
  let head : Piece := { bytes := [opening, mark], marks := 1 }
  let body := members.foldl Piece.andThen { bytes := [] }
  match members with
  | [] => head
  | [_] => (head.andThen body).andThen { bytes := [one] }
  | _ => (head.andThen { bytes := 0x28 :: body.bytes, marks := body.marks }).andThen
      { bytes := [several] }

mutual
def ofDatum : Datum → Piece
  | .bool b => { bytes := [if b then 0x88 else 0x89] }
  | .int n => ofInt n
  | .real x => { bytes := 0x47 :: highFirst 8 x.toBits.toNat }
  | .text s => ofText s
  | .moment m => ofMoment m
  | .list xs => container 0x5d 0x61 0x65 (ofItems xs)
  | .dict fs => container 0x7d 0x73 0x75 (ofFields fs)
  | _ => { bytes := [0x4e] }

def ofItems : List Datum → List Piece
  | [] => []
  | x :: xs => ofDatum x :: ofItems xs

def ofFields : List (Datum × Datum) → List Piece
  | [] => []
  | (k, v) :: rest => (ofDatum k).andThen (ofDatum v) :: ofFields rest
end

end SuiteTidy.Packed
