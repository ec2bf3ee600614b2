import SuiteTidy.Datum.Access

/-!
What the tool shows on a console: texts with markup, framed texts and tables.
-/

set_option autoImplicit false
set_option relaxedAutoImplicit false

namespace SuiteTidy

/-- A table: its title, whether its columns have headings, each column with its style, and the
rows. -/
structure Table where
  title : String
  showHeader : Bool := true
  columns : List (String × String)
  rows : List (List String) := []
deriving Repr, DecidableEq, Inhabited

inductive Shown where
  /-- A text with markup; nothing for an empty line. -/
  | text (words : Option String)
  | panel (words border : String)
  | table (t : Table)
deriving Repr, DecidableEq, Inhabited

namespace Table

def make (title : String) (columns : List (String × String)) : Table := { title, columns }

def plain (title : String) (columns : List (String × String)) : Table :=
  { title, columns, showHeader := false }

/-- The text of a cell. Nothing makes an empty cell; anything else must be a text. -/
def cellText : Datum → Datum.Found String
  | .null => .ok ""
  | .text s => .ok s
  | d => .error (.notShowable d.kindName)

end Table

namespace Shown

def toDatum : Shown → Datum
  | text words => .record [("text", .ofOption .text words)]
  | panel words border => .record [("panel", .text words), ("border_style", .text border)]
  | table t =>
    .record [("table", .text t.title), ("show_header", .bool t.showHeader),
      ("columns", .list (t.columns.map fun (header, style) => .texts [header, style])),
      ("rows", .list (t.rows.map .texts))]

end Shown
end SuiteTidy
