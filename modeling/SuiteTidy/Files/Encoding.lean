/-!
Text in files: the first place at which bytes stop being text, and why.
-/

set_option autoImplicit false
set_option relaxedAutoImplicit false

namespace SuiteTidy.Encoding

inductive Reason where
  | badStart
  | badContinuation
  | cutShort
deriving Repr, DecidableEq

def Reason.words : Reason → String
  | badStart => "invalid start byte"
  | badContinuation => "invalid continuation byte"
  | cutShort => "unexpected end of data"

/-- The first bytes that are not text: the value of the first of them, its position, how many they
are and why. -/
structure Break where
  byte : UInt8
  position : Nat
  length : Nat
  reason : Reason
deriving Repr, DecidableEq

def isContinuation (b : UInt8) : Bool := 0x80 ≤ b && b < 0xC0

/-- How many bytes follow a first byte; `none` if it starts no character. -/
def following? (b : UInt8) : Option Nat :=
  if b < 0x80 then some 0
  else if 0xC2 ≤ b && b < 0xE0 then some 1
  else if 0xE0 ≤ b && b < 0xF0 then some 2
  else if 0xF0 ≤ b && b < 0xF5 then some 3
  else none

/-- Whether the second byte of a character fits its first. Forms that are too long, the halves of
pairs and codes above the last one are refused here. -/
def fitsSecond (first second : UInt8) : Bool :=
  isContinuation second &&
    !(first == 0xE0 && second < 0xA0) && !(first == 0xED && second ≥ 0xA0) &&
    !(first == 0xF0 && second < 0x90) && !(first == 0xF4 && second ≥ 0x90)

/-- The problem in the bytes after a first byte: how many bytes were read well, and the reason. -/
def followBreak (first : UInt8) (needed : Nat) (rest : List UInt8) : Option (Nat × Reason) :=
  match needed, rest with
  | 0, _ => none
  | _ + 1, [] => some (1, .cutShort)
  | needed + 1, second :: more =>
    if !fitsSecond first second then some (1, .badContinuation) else go needed 2 more
where
  /-- Checks the bytes from the third on. -/
  go : Nat → Nat → List UInt8 → Option (Nat × Reason)
    | 0, _, _ => none
    | _ + 1, n, [] => some (n, .cutShort)
    | left + 1, n, b :: more =>
      if isContinuation b then go left (n + 1) more else some (n, .badContinuation)

/-- The first break in bytes, of which `skip` still belong to a character that was checked. -/
def breakFrom : Nat → Nat → List UInt8 → Option Break
  | _, _, [] => none
  | position, skip + 1, _ :: rest => breakFrom (position + 1) skip rest
  | position, 0, b :: rest =>
    match following? b with
    | none => some { byte := b, position := position, length := 1, reason := .badStart }
    | some needed =>
      match followBreak b needed rest with
      | some (n, reason) =>
        some { byte := b, position := position, length := n, reason := reason }
      | none => breakFrom (position + 1) needed rest

def firstBreak (bytes : List UInt8) : Option Break := breakFrom 0 0 bytes

end SuiteTidy.Encoding
