import SuiteTidy.Json.Fault
import SuiteTidy.Order.Insertion

/-!
Writing JSON documents. What has been written when a value turns out to have no JSON form is kept,
since a document that is written to a file stops there.
-/

set_option autoImplicit false
set_option relaxedAutoImplicit false

namespace SuiteTidy.Json

/-- How a document is laid out: the indentation of a level (none for a document on one line),
whether keys are sorted, whether only ASCII is written, whether a value without a JSON form is
refused or has a text in its place, and what stands between items and after keys. -/
structure Layout where
  indent : Option Nat
  sortKeys : Bool := false
  asciiOnly : Bool := true
  strict : Bool := false
  comma : String := ","
  colon : String := ": "
deriving Repr, DecidableEq

def Layout.readable : Layout := { indent := some 2, asciiOnly := false }

def Layout.sorted : Layout := { indent := some 4, sortKeys := true, asciiOnly := false }

def Layout.compact : Layout := { indent := none, colon := ":" }

def Layout.stored : Layout := { indent := some 2 }

/-- Two spaces a level, ASCII only, and nothing but values that have a JSON form. -/
def Layout.exact : Layout := { indent := some 2, strict := true }

/-- The part of a document that has been written, and why it stopped there, if it did. -/
structure Written where
  text : String
  fault : Option Fault := none

namespace Written

def done (s : String) : Written := { text := s }

/-- What is written first, and then, unless writing has stopped, what follows. -/
def andThen (a b : Written) : Written :=
  match a.fault with
  | some _ => a
  | none => { text := a.text ++ b.text, fault := b.fault }

def toExcept (w : Written) : Except Fault String :=
  match w.fault with
  | some f => .error f
  | none => .ok w.text

end Written

def unitEscape (n : Nat) : List Char := '\\' :: 'u' :: Text.hexDigits n 4

def stringChar (asciiOnly : Bool) (c : Char) : List Char :=
  if c = '"' then ['\\', '"']
  else if c = '\\' then ['\\', '\\']
  else if c = '\n' then ['\\', 'n']
  else if c = '\r' then ['\\', 'r']
  else if c = '\t' then ['\\', 't']
  else if c = '\x08' then ['\\', 'b']
  else if c = '\x0c' then ['\\', 'f']
  else if c.toNat < 32 then unitEscape c.toNat
  else if asciiOnly && decide (126 < c.toNat) then
    if c.toNat < 0x10000 then unitEscape c.toNat
    else
      let n := c.toNat - 0x10000
      unitEscape (0xD800 + n / 0x400) ++ unitEscape (0xDC00 + n % 0x400)
  else [c]

def stringText (asciiOnly : Bool) (s : String) : String :=
  String.ofList ('"' :: s.toList.flatMap (stringChar asciiOnly) ++ ['"'])

def realText (x : Float) : String :=
  match Decimal.parts x with
  | .nan => "NaN"
  | .infinite negative => if negative then "-Infinity" else "Infinity"
  | _ => Decimal.text x

/-- The text of an integer, if it has not too many digits. -/
def intWritten (n : Int) : Written :=
  let s := toString n
  if (toString n.natAbs).length > digitLimit then
    { text := "", fault := some .tooManyDigitsToWrite }
  else .done s

/-- The text that stands for a value which is neither a standard value nor a container. -/
def standIn : Datum → String
  | .member _ _ word => word
  | .moment m => m.iso
  | d => d.plain

def keyText : Datum → Except Fault String
  | .text s => .ok s
  | .real x => .ok (realText x)
  | .bool b => .ok (if b then "true" else "false")
  | .null => .ok "null"
  | .int n => (intWritten n).toExcept
  | d => .error (.unwritable (.badKey d.kindName))

def Layout.lineBreak (layout : Layout) (level : Nat) : String :=
  match layout.indent with
  | none => ""
  | some width => "\n" ++ String.ofList (List.replicate (width * level) ' ')

def keyLess (a b : Datum × Datum) : Except Fault Bool :=
  match a.1, b.1 with
  | .text s, .text t => .ok (s < t)
  | x, y =>
    match x.number?, y.number? with
    | some m, some n => .ok (m.less n)
    | _, _ => .error (.unwritable (.notOrdered "<" x.kindName y.kindName))

/-- The contents of a list or dictionary, and then the bracket that closes it on a line of its
own. -/
def closed (layout : Layout) (level : Nat) (closing : String) (body : Written) : Written :=
  body.andThen (.done (layout.lineBreak level ++ closing))

def Layout.lead (layout : Layout) (level : Nat) (first : Bool) : String :=
  if first then "" else layout.comma ++ layout.lineBreak level

/-- What is written of an item of a list and of what stands in front of it. An integer is written
together with what stands in front, so that neither is if it has too many digits. -/
def led (lead : String) (item : Datum) (w : Written) : Written :=
  match item, w.fault with
  | .int _, some _ => w
  | _, _ => (Written.done lead).andThen w

mutual
def write (layout : Layout) (level : Nat) : Datum → Written
  | .null => .done "null"
  | .bool b => .done (if b then "true" else "false")
  | .int n => intWritten n
  | .real x => .done (realText x)
  | .text s => .done (stringText layout.asciiOnly s)
  | .list [] => .done "[]"
  | .list xs =>
    closed layout level "]" (writeItems layout (level + 1) ("[" ++ layout.lineBreak (level + 1)) xs)
  | .tuple [] => .done "[]"
  | .tuple xs =>
    closed layout level "]" (writeItems layout (level + 1) ("[" ++ layout.lineBreak (level + 1)) xs)
  | .dict [] => .done "\x7b\x7d"
  | .dict fs =>
    closed layout level "\x7d" ((Written.done ("\x7b" ++ layout.lineBreak (level + 1))).andThen
      (writeFields layout (level + 1) true fs))
  | d =>
    if layout.strict then { text := "", fault := some (.unwritable (.notWritable d.kindName)) }
    else .done (stringText layout.asciiOnly (standIn d))

def writeItems (layout : Layout) (level : Nat) (lead : String) : List Datum → Written
  | [] => .done ""
  | x :: xs =>
    (led lead x (write layout level x)).andThen
      (writeItems layout level (layout.comma ++ layout.lineBreak level) xs)

/-- Writes the fields of a dictionary; the flag says whether the first of them is still to come. -/
def writeFields (layout : Layout) (level : Nat) (first : Bool) : List (Datum × Datum) → Written
  | [] => .done ""
  | (k, v) :: rest =>
    match keyText k with
    | .error f => { text := "", fault := some f }
    | .ok s =>
      (Written.done (layout.lead level first ++ stringText layout.asciiOnly s ++
        layout.colon)).andThen
        ((write layout level v).andThen (writeFields layout level false rest))
end

mutual
/-- The value with the fields of every dictionary in it in the order of their keys. -/
def sortKeys : Datum → Except Fault Datum
  | .list xs => do return .list (← sortKeysAll xs)
  | .tuple xs => do return .tuple (← sortKeysAll xs)
  | .dict fs => do return .dict (← Order.sortM keyLess (← sortKeysFields fs))
  | d => .ok d

def sortKeysAll : List Datum → Except Fault (List Datum)
  | [] => .ok []
  | x :: xs => do return (← sortKeys x) :: (← sortKeysAll xs)

def sortKeysFields : List (Datum × Datum) → Except Fault (List (Datum × Datum))
  | [] => .ok []
  | (k, v) :: rest => do return (k, ← sortKeys v) :: (← sortKeysFields rest)
end

def render (layout : Layout) (d : Datum) : Written :=
  if layout.sortKeys then
    match sortKeys d with
    | .ok sorted => write layout 0 sorted
    | .error f => { text := "", fault := some f }
  else write layout 0 d

def text (layout : Layout) (d : Datum) : Except Fault String := (render layout d).toExcept

end SuiteTidy.Json
