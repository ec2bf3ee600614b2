import SuiteTidy.Json.Printer
import SuiteTidy.Yaml.Scalar

/-!
Writing YAML documents. Fields are sorted where their keys can be compared, collections are written
in blocks, and a text is quoted where it would otherwise be read as something else. Long texts are
broken at blanks.
-/

set_option autoImplicit false
set_option relaxedAutoImplicit false

namespace SuiteTidy.Yaml

/-- What has been written, last character first: the column, whether a blank or the indentation of a
line stands in front, and whether the document needs a mark at its end. -/
structure Page where
  written : List Char := []
  column : Nat := 0
  blank : Bool := true
  fresh : Bool := true
  openEnded : Bool := false
deriving Inhabited

abbrev Print (α : Type) : Type := StateM Page α

namespace Print

def width : Nat := 80

def step : Nat := 2

def put (cs : List Char) : Print Unit := modify fun p =>
  { p with written := cs.reverse ++ p.written, column := p.column + cs.length }

def newLine : Print Unit := modify fun p =>
  { p with written := '\n' :: p.written, column := 0, blank := true, fresh := true }

def goTo (indent : Nat) : Print Unit := do
  let p ← get
  if !p.fresh || decide (indent < p.column) || (p.column = indent && !p.blank) then newLine
  let p ← get
  if p.column < indent then
    put (List.replicate (indent - p.column) ' ')
    modify fun p => { p with blank := true }

/-- Writes a sign, after a blank if it needs one. The flag `opens` says that a block may start on
the same line. -/
def sign (s : String) (spaced : Bool) (opens : Bool := false) : Print Unit := do
  let p ← get
  put (if p.blank || !spaced then s.toList else ' ' :: s.toList)
  modify fun p => { p with blank := false, fresh := p.fresh && opens, openEnded := false }

def inText : Print Unit := modify fun p => { p with blank := false, fresh := false }

def isBreak (c : Char) : Bool := c = '\n' || c = '\x85' || c = '\u2028' || c = '\u2029'

def isStop (c : Char) : Bool := c = '\x00' || c = ' ' || c = '\t' || c = '\r' || isBreak c

def runs : List Char → List (List Char)
  | [] => []
  | c :: cs =>
    let kind (c : Char) : Nat := if c = ' ' then 0 else if isBreak c then 1 else 2
    match runs cs with
    | (d :: ds) :: rest =>
      if kind c = kind d then (c :: d :: ds) :: rest else [c] :: (d :: ds) :: rest
    | rest => [c] :: rest

def plainText (indent : Nat) (split : Bool) (cs : List Char) : Print Unit := do
  if !(← get).blank then put [' ']
  inText
  for run in runs cs do
    if run = [' '] && split && decide (width < (← get).column) then
      goTo indent
      inText
    else put run

/-- Writes the runs of a text between single quotes. The flag `first` is for the first run. -/
def singleRuns (indent : Nat) (split : Bool) (first : Bool) : List (List Char) → Print Unit
  | [] => return
  | run :: rest => do
    match run with
    | '\n' :: _ =>
      newLine
      for _ in run do newLine
      goTo indent
    | _ =>
      if run = [' '] && split && !first && !rest.isEmpty && decide (width < (← get).column) then
        goTo indent
      else put (run.flatMap fun c => if c = '\'' then ['\'', '\''] else [c])
    singleRuns indent split false rest

def singleQuoted (indent : Nat) (split : Bool) (cs : List Char) : Print Unit := do
  sign "'" true
  singleRuns indent split true (runs cs)
  sign "'" false

def letters : List (Char × Char) :=
  [('\x00', '0'), ('\x07', 'a'), ('\x08', 'b'), ('\t', 't'), ('\n', 'n'), ('\x0b', 'v'),
   ('\x0c', 'f'), ('\r', 'r'), ('\x1b', 'e'), ('"', '"'), ('\\', '\\'), ('\x85', 'N'),
   ('\xa0', '_'), ('\u2028', 'L'), ('\u2029', 'P')]

def escape (c : Char) : List Char :=
  match letters.find? (·.1 == c) with
  | some (_, l) => ['\\', l]
  | none =>
    let n := c.toNat
    let digits (w : Nat) : List Char := (Text.hexDigits n w).map Char.toUpper
    if n ≤ 0xFF then '\\' :: 'x' :: digits 2
    else if n ≤ 0xFFFF then '\\' :: 'u' :: digits 4
    else '\\' :: 'U' :: digits 8

def needsEscape (c : Char) : Bool := c = '"' || c = '\\' || !(' ' ≤ c && c ≤ '~')

/-- Writes a text between double quotes, from a place on. Characters that are not yet written are
held back, the last first; a line may end before a blank or after an escape. -/
def doubleFrom (indent : Nat) (split : Bool) (first : Bool) (held : List Char) :
    List Char → Print Unit
  | [] => put held.reverse
  | c :: cs => do
    let escaped := needsEscape c
    if escaped then
      put held.reverse
      put (escape c)
    let held := if escaped then [] else held
    let column := (← get).column
    let tooLong :=
      if escaped then decide (width + 1 < column) else decide (width < column + held.length)
    if !first && !cs.isEmpty && (c = ' ' || escaped || held.isEmpty) && tooLong && split then
      put (held.reverse ++ ['\\'])
      goTo indent
      inText
      let next := if escaped then cs.head? else some c
      if next = some ' ' then put ['\\']
      doubleFrom indent split false (if escaped then [] else [c]) cs
    else doubleFrom indent split false (if escaped then [] else c :: held) cs

def doubleQuoted (indent : Nat) (split : Bool) (cs : List Char) : Print Unit := do
  sign "\"" true
  doubleFrom indent split true [] cs
  sign "\"" false

/-- Whether a sign in a text forbids writing it without quotes. The arguments before the text say
whether this is its first character and whether a blank precedes. -/
def hasSign (first afterBlank : Bool) : List Char → Bool
  | [] => false
  | c :: cs =>
    let beforeBlank := (cs.head?.map isStop).getD true
    let here :=
      if first then
        "#,[]\x7b\x7d&*!|>'\"%@\x60".toList.contains c ||
          ((c = '?' || c = ':' || c = '-') && beforeBlank)
      else (c = ':' && beforeBlank) || (c = '#' && afterBlank)
    here || hasSign false (isStop c) cs

def hasPair (p q : Char → Bool) : List Char → Bool
  | [] => false
  | c :: cs => (p c && (cs.head?.map q).getD false) || hasPair p q cs

inductive Style where
  | plain
  | single
  | double
deriving Repr, DecidableEq

/-- The style for a text. It may stand without quotes only if it then means what it is; a key stays
on one line. -/
def styleOf (mayBePlain isKey : Bool) (cs : List Char) : Style :=
  let hasBreak := cs.any isBreak
  let isBlank (c : Char) : Bool := c = ' '
  let atEdge (p : Char → Bool) : Bool :=
    (cs.head?.map p).getD false || (cs.getLast?.map p).getD false
  let special := cs.any fun c => !(c = '\n' || (' ' ≤ c && c ≤ '~'))
  let marked := ["---", "..."].contains (String.ofList (cs.take 3))
  let plainAllowed :=
    !(atEdge isBlank || hasBreak || special || marked || hasSign true true cs)
  let singleAllowed := !(hasPair isBreak isBlank cs || hasPair isBlank isBreak cs || special)
  if mayBePlain && plainAllowed && !(isKey && cs.isEmpty) then .plain
  else if singleAllowed && !(isKey && hasBreak) then .single
  else .double

def realText (x : Float) : String :=
  match Decimal.parts x with
  | .nan => ".nan"
  | .infinite negative => if negative then "-.inf" else ".inf"
  | _ =>
    let cs := (Decimal.text x).toList
    if cs.contains '.' then String.ofList cs
    else
      String.ofList (cs.takeWhile (· != 'e') ++
        (match cs.dropWhile (· != 'e') with
         | [] => []
         | e => '.' :: '0' :: e))

/-- The text of a value without parts, whether it means itself when it stands without quotes, and
the length of the name of its kind. -/
def scalarOf : Datum → String × Bool × Nat
  | .null => ("null", true, 6)
  | .bool b => (if b then "true" else "false", true, 6)
  | .int n => (toString n, true, 5)
  | .real x => (realText x, true, 7)
  | .moment m => (m.iso.map fun c => if c = 'T' then ' ' else c, true, 11)
  | d =>
    let s := d.plain
    (s, Meaning.of s == .text, 5)

def scalar (indent : Option Nat) (isKey : Bool) (d : Datum) : Print Unit := do
  let (s, mayBePlain, _) := scalarOf d
  let inner := match indent with
    | none => step
    | some i => i + step
  match styleOf mayBePlain isKey s.toList with
  | .plain =>
    if indent.isNone then modify fun p => { p with openEnded := true }
    plainText inner (!isKey) s.toList
  | .single => singleQuoted inner (!isKey) s.toList
  | .double => doubleQuoted inner (!isKey) s.toList

/-- Whether a key can stand on one line with its value: neither empty nor long nor of several
lines. -/
def isSimpleKey (d : Datum) : Bool :=
  let (s, _, kind) := scalarOf d
  decide (kind + s.length < 128) && !s.isEmpty && !s.toList.any isBreak

def inside (indent : Option Nat) (loose : Bool) : Nat :=
  match indent with
  | none => 0
  | some i => if loose then i else i + step

mutual
/-- Writes a value. The items of a list that is the value of a field are not indented deeper. -/
def node (indent : Option Nat) (inField : Bool) : Datum → Print Unit
  | .list [] => sign "[]" true
  | .tuple [] => sign "[]" true
  | .dict [] => sign "\x7b\x7d" true
  | .list xs => do items (inside indent (inField && !(← get).fresh)) xs
  | .tuple xs => do items (inside indent (inField && !(← get).fresh)) xs
  | .dict fs => fields (inside indent false) fs
  | d => scalar indent false d

def items (indent : Nat) : List Datum → Print Unit
  | [] => return
  | x :: xs => do
    goTo indent
    sign "-" true true
    node (some indent) false x
    items indent xs

def fields (indent : Nat) : List (Datum × Datum) → Print Unit
  | [] => return
  | (k, v) :: rest => do
    goTo indent
    if isSimpleKey k then
      scalar (some indent) true k
      sign ":" false
    else
      sign "?" true true
      scalar (some indent) false k
      goTo indent
      sign ":" true true
    node (some indent) true v
    fields indent rest
end

end Print

mutual
/-- The value with the fields of every dictionary sorted, unless their keys cannot be compared. -/
def sortFields : Datum → Datum
  | .list xs => .list (sortFieldsAll xs)
  | .tuple xs => .tuple (sortFieldsAll xs)
  | .dict fs =>
    let inner := sortFieldsOf fs
    match Order.sortM Json.keyLess inner with
    | .ok sorted => .dict sorted
    | .error _ => .dict inner
  | d => d

def sortFieldsAll : List Datum → List Datum
  | [] => []
  | x :: xs => sortFields x :: sortFieldsAll xs

def sortFieldsOf : List (Datum × Datum) → List (Datum × Datum)
  | [] => []
  | (k, v) :: rest => (k, sortFields v) :: sortFieldsOf rest
end

def text (d : Datum) : String :=
  let finish : Print Unit := do
    Print.node none false (sortFields d)
    Print.goTo 0
    if (← get).openEnded then
      Print.put "...\n".toList
  String.ofList (finish {}).2.written.reverse

end SuiteTidy.Yaml
