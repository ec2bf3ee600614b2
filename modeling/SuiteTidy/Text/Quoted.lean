import SuiteTidy.Text.Runs
import SuiteTidy.Text.PrintableRuns

/-!
Text and bytes in quotes, with escapes for what cannot be seen.
-/

set_option autoImplicit false
set_option relaxedAutoImplicit false

namespace SuiteTidy.Text

/-- Whether a character has a visible form of its own. The space counts as visible, other blanks do
not. -/
def isPrintable (c : Char) : Bool :=
  if c.toNat < 128 then decide (32 ≤ c.toNat ∧ c.toNat < 127) else inRuns printableRuns c.toNat

def hexDigits (n : Nat) : Nat → List Char
  | 0 => []
  | width + 1 => hexDigits (n / 16) width ++ [Nat.digitChar (n % 16)]

def hexDigit? (c : Char) : Option Nat :=
  if '0' ≤ c && c ≤ '9' then some (c.toNat - 48)
  else if 'a' ≤ c && c ≤ 'f' then some (c.toNat - 87)
  else if 'A' ≤ c && c ≤ 'F' then some (c.toNat - 55)
  else none

def hexOf (bytes : List UInt8) : String :=
  String.ofList (bytes.flatMap fun b => hexDigits b.toNat 2)

def bytesOfHex : List Char → List UInt8
  | a :: b :: rest =>
    match hexDigit? a, hexDigit? b with
    | some x, some y => (16 * x + y).toUInt8 :: bytesOfHex rest
    | _, _ => []
  | _ => []

/-- The escape of a character by its code: two, four or eight hexadecimal digits. -/
def codeEscape (n : Nat) : List Char :=
  if n < 0x100 then '\\' :: 'x' :: hexDigits n 2
  else if n < 0x10000 then '\\' :: 'u' :: hexDigits n 4
  else '\\' :: 'U' :: hexDigits n 8

/-- Single quotes, unless the text holds a single quote and no double quote. -/
def chooseQuote (cs : List Char) : Char :=
  if cs.contains '\'' && !cs.contains '"' then '"' else '\''

def quoteChar (quote c : Char) : List Char :=
  if c = quote ∨ c = '\\' then ['\\', c]
  else if c = '\n' then ['\\', 'n']
  else if c = '\r' then ['\\', 'r']
  else if c = '\t' then ['\\', 't']
  else if isPrintable c then [c]
  else codeEscape c.toNat

def quote (cs : List Char) : List Char :=
  let q := chooseQuote cs
  q :: cs.flatMap (quoteChar q) ++ [q]

/-- Bytes in quotes after the letter `b`; only ASCII is shown as it is. -/
def quoteBytes (bs : List UInt8) : List Char :=
  let cs := bs.map fun b => Char.ofNat b.toNat
  let q := chooseQuote cs
  let shown (c : Char) : List Char :=
    if c.toNat < 128 then quoteChar q c else codeEscape c.toNat
  'b' :: q :: cs.flatMap shown ++ [q]

end SuiteTidy.Text

namespace SuiteTidy

def quoted (s : String) : String := String.ofList (Text.quote s.toList)

end SuiteTidy
