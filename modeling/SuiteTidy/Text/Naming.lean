import SuiteTidy.Text.Blank
import SuiteTidy.Text.Case

/-!
Spellings of a name: `snake_case`, `camelCase`, `PascalCase`, `kebab-case`, and a form that is safe
as a file name.
-/

set_option autoImplicit false
set_option relaxedAutoImplicit false

namespace SuiteTidy.Text

/-- Puts `sep` between a small ASCII letter and the capital that follows it. -/
def breakHumps (sep : Char) : List Char → List Char
  | [] => []
  | [c] => [c]
  | a :: b :: cs =>
    if a.isLower && b.isUpper then a :: sep :: breakHumps sep (b :: cs)
    else a :: breakHumps sep (b :: cs)

/-- Spaces and the characters in `others` become `sep`, humps are broken with `sep`, and all
letters become small. -/
def spellWith (sep other : Char) (cs : List Char) : List Char :=
  lower (breakHumps sep (cs.map fun c => if c = ' ' ∨ c = other then sep else c))

def nameParts (cs : List Char) : List (List Char) :=
  cs.splitOnP fun c => c == '-' || c == '_' || isBlank c

def isUnsafe (c : Char) : Bool :=
  c == '<' || c == '>' || c == ':' || c == '"' || c == '/' || c == '\\' || c == '|' || c == '?' ||
    c == '*'

def squeezeUnderscores : List Char → List Char
  | [] => []
  | [c] => [c]
  | a :: b :: cs =>
    if a = '_' ∧ b = '_' then squeezeUnderscores (b :: cs) else a :: squeezeUnderscores (b :: cs)

end SuiteTidy.Text

namespace SuiteTidy.Naming

open SuiteTidy.Text

def snake (s : String) : String := String.ofList (spellWith '_' '-' s.toList)

def kebab (s : String) : String := String.ofList (spellWith '-' '_' s.toList)

/-- The name in `camelCase`: the first piece small, every other piece capitalised. -/
def camel (s : String) : String :=
  match nameParts s.toList with
  | [] => s
  | first :: rest => String.ofList (lower first ++ (rest.map capitalize).flatten)

def pascal (s : String) : String :=
  String.ofList ((nameParts s.toList).map capitalize).flatten

/-- The name without characters that file names refuse, spaces as underscores, no underscore
beside another and none at either end. -/
def fileSafe (s : String) : String :=
  let kept := s.toList.filter fun c => !isUnsafe c
  let joined := kept.map fun c => if c = ' ' then '_' else c
  String.ofList (trimSet (· == '_') (squeezeUnderscores joined))

end SuiteTidy.Naming
