import SuiteTidy.Text.Blank
import SuiteTidy.Text.Lines

/-!
Fitting text to a width: cutting it short, filling lines with words, and indenting lines.
-/

set_option autoImplicit false
set_option relaxedAutoImplicit false

namespace SuiteTidy.Text

/-- The first `stop` characters; a negative `stop` counts from the end of the text. -/
def takeTo (stop : Int) (cs : List Char) : List Char :=
  if stop < 0 then cs.take (cs.length + stop).toNat else cs.take stop.toNat

def truncate (cs : List Char) (width : Int) (mark : List Char) : List Char :=
  if cs.length ≤ width then cs else takeTo (width - mark.length) cs ++ mark

def lettersIn (ws : List (List Char)) : Nat := (ws.map List.length).foldr (· + ·) 0

/-- Fills lines with words, given the words that are already on the current line. A word goes on
the current line if the line stays within `width`; a word that does not fit on an empty line gets
a line of its own. -/
def fill (width : Int) : List (List Char) → List (List Char) → List (List (List Char))
  | [], [] => []
  | line, [] => [line]
  | line, w :: ws =>
    if (lettersIn line + w.length + line.length : Nat) > width then
      match line with
      | [] => [w] :: fill width [] ws
      | _ => line :: fill width [w] ws
    else fill width (line ++ [w]) ws

def wrap (cs : List Char) (width : Int) : List Char :=
  ['\n'].intercalate ((fill width [] (words cs)).map fun line => [' '].intercalate line)

/-- Puts `width` spaces in front of every line that is not blank. -/
def indent (cs : List Char) (width : Int) : List Char :=
  ['\n'].intercalate ((splitLines cs).map fun line =>
    if (trim line).isEmpty then line else List.replicate width.toNat ' ' ++ line)

def dropBlankLines (cs : List Char) : List Char :=
  ['\n'].intercalate ((splitLines cs).filter fun line => !(trim line).isEmpty)

end SuiteTidy.Text
