import SuiteTidy.Text.Lines

/-!
Removing comments from program text, and the quoted strings in it.
-/

set_option autoImplicit false
set_option relaxedAutoImplicit false

namespace SuiteTidy.Text

/-- Drops what stands between two slashes and the end of their line. The flag says whether the
scan is inside such a comment. -/
def dropLineComments : Bool → List Char → List Char
  | _, [] => []
  | true, c :: cs => if c = '\n' then c :: dropLineComments false cs else dropLineComments true cs
  | false, '/' :: '/' :: cs => dropLineComments true cs
  | false, c :: cs => c :: dropLineComments false cs

/-- Drops the comments that are opened and closed. The flag says whether the scan is inside such a
comment; an opening mark that nothing closes is text. -/
def dropBlockComments : Bool → List Char → List Char
  | _, [] => []
  | true, '*' :: '/' :: cs => dropBlockComments false cs
  | true, _ :: cs => dropBlockComments true cs
  | false, '/' :: '*' :: cs =>
    if occurs ['*', '/'] cs then dropBlockComments true cs
    else '/' :: '*' :: dropBlockComments false cs
  | false, c :: cs => c :: dropBlockComments false cs

/-- Removes the line comments first and the block comments of what is left. -/
def stripComments (cs : List Char) : List Char :=
  dropBlockComments false (dropLineComments false cs)

def isQuote (c : Char) : Bool := c == '"' || c == '\''

def quotedFrom : Option (List Char) → List Char → List (List Char)
  | _, [] => []
  | none, c :: cs => if isQuote c then quotedFrom (some []) cs else quotedFrom none cs
  | some acc, c :: cs =>
    if isQuote c then acc.reverse :: quotedFrom none cs else quotedFrom (some (c :: acc)) cs

/-- The quoted strings of a text in order. Either quote closes what either quote has opened. -/
def quoted (cs : List Char) : List (List Char) := quotedFrom none cs

end SuiteTidy.Text
