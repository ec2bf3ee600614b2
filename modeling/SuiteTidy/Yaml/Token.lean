import SuiteTidy.Text.Quoted

/-!
The tokens of a YAML document. Indentation becomes tokens too: a block of entries opens where a line
is indented deeper, and closes where a later line is indented less. A text is known to be a key only
when its colon is met, so the place of every text that may be one is remembered until then.
-/

set_option autoImplicit false
set_option relaxedAutoImplicit false

namespace SuiteTidy.Yaml

inductive Token where
  | documentStart
  | documentEnd
  | sequenceStart
  | mappingStart
  | blockEnd
  | flowSequenceStart
  | flowSequenceEnd
  | flowMappingStart
  | flowMappingEnd
  | entry
  | flowEntry
  | key
  | value
  /-- A text, and whether it stands without quotes. -/
  | scalar (text : String) (plain : Bool)
deriving Repr, DecidableEq, Inhabited

/-- A text that may turn out to be a key: the number of tokens before it, whether it must be one,
and where it stands. -/
structure PendingKey where
  before : Nat
  required : Bool
  index : Nat
  line : Nat
  column : Nat
deriving Repr, DecidableEq, Inhabited

/-- How far a document has been read: what is left of it, the position, the depth of brackets, the
columns of the open blocks, whether a key may start here, the keys that may still come at each
depth, and the tokens so far with the latest first. -/
structure Scanner where
  rest : List Char
  index : Nat := 0
  line : Nat := 0
  column : Nat := 0
  depth : Nat := 0
  indent : Int := -1
  outer : List Int := []
  keyAllowed : Bool := true
  pending : List (Nat × PendingKey) := []
  tokens : List Token := []
deriving Inhabited

/-- A step of reading. It has no result where the text is not YAML. -/
abbrev Scan (α : Type) : Type := StateT Scanner Option α

namespace Scan

def isBreak (c : Char) : Bool :=
  c = '\r' || c = '\n' || c = '\x85' || c = '\u2028' || c = '\u2029'

def isStop (c : Char) : Bool := c = '\x00' || c = ' ' || c = '\t' || isBreak c

/-- The character a number of places ahead; a null character after the end. -/
def peek (n : Nat) : Scan Char := do return ((← get).rest[n]?).getD '\x00'

def passed (s : Scanner) (c : Char) (next : Option Char) : Scanner :=
  let s := { s with rest := s.rest.drop 1, index := s.index + 1 }
  if isBreak c && !(c = '\r' && next = some '\n') then { s with line := s.line + 1, column := 0 }
  else if c = '\ufeff' then s
  else { s with column := s.column + 1 }

def pass : Scan Unit := modify fun s =>
  match s.rest with
  | [] => s
  | c :: cs => passed s c cs.head?

def forward : Nat → Scan Unit
  | 0 => return
  | n + 1 => do
    pass
    forward n

def takeWhile (p : Char → Bool) : Scan (List Char) := do
  let cs := (← get).rest.takeWhile p
  forward cs.length
  return cs

/-- Passes over a line end, if there is one, and gives it; most are written as a line feed. -/
def lineBreak : Scan (List Char) := do
  let c ← peek 0
  if c = '\r' && (← peek 1) = '\n' then
    forward 2
    return ['\n']
  else if c = '\u2028' || c = '\u2029' then
    forward 1
    return [c]
  else if isBreak c then
    forward 1
    return ['\n']
  else return []

def atMark (mark : List Char) : Scan Bool := do
  return (← get).rest.take 3 == mark && isStop (← peek 3)

def atAnyMark : Scan Bool := do
  return (← atMark ['-', '-', '-']) || (← atMark ['.', '.', '.'])

def emit (t : Token) : Scan Unit := modify fun s => { s with tokens := t :: s.tokens }

/-- Puts a token in after the first `before` tokens. -/
def insert (before : Nat) (t : Token) : Scan Unit := modify fun s =>
  let later := s.tokens.length - before
  { s with tokens := s.tokens.take later ++ t :: s.tokens.drop later }

def allowKey (b : Bool) : Scan Unit := modify fun s => { s with keyAllowed := b }

/-- Forgets the key that may still come at this depth. One that had to be a key is a fault. -/
def dropPending : Scan Unit := do
  let s ← get
  match s.pending.find? (·.1 == s.depth) with
  | some (_, k) => if k.required then failure
  | none => pure ()
  set { s with pending := s.pending.filter (·.1 != s.depth) }

/-- Forgets the keys that can no longer come: a key and its colon stand on one line, not too far
apart. -/
def dropStale : Scan Unit := do
  let s ← get
  let isStale (k : PendingKey) : Bool := k.line != s.line || decide (s.index - k.index > 1024)
  if s.pending.any fun (_, k) => isStale k && k.required then failure
  set { s with pending := s.pending.filter fun (_, k) => !isStale k }

def savePending : Scan Unit := do
  let s ← get
  if s.keyAllowed then
    dropPending
    let s ← get
    let k : PendingKey :=
      { before := s.tokens.length, required := s.depth = 0 && s.indent = s.column, index := s.index,
        line := s.line, column := s.column }
    set { s with pending := (s.depth, k) :: s.pending }

/-- Closes the blocks that are indented deeper than a column; `n` bounds their number. -/
def unwind (column : Int) : Nat → Scan Unit
  | 0 => return
  | n + 1 => do
    let s ← get
    if s.depth = 0 && decide (s.indent > column) then
      set { s with indent := s.outer.headD (-1), outer := s.outer.drop 1 }
      emit .blockEnd
      unwind column n

def unwindTo (column : Int) : Scan Unit := do unwind column ((← get).outer.length + 1)

def openBlock (column : Int) : Scan Bool := do
  let s ← get
  if s.indent < column then
    set { s with outer := s.indent :: s.outer, indent := column }
    return true
  else return false

def skip : Nat → Scan Unit
  | 0 => return
  | n + 1 => do
    let _ ← takeWhile (· = ' ')
    if (← peek 0) = '#' then let _ ← takeWhile fun c => !isBreak c
    if (← lineBreak).isEmpty then return
    else
      if (← get).depth = 0 then allowKey true
      skip n

def plainLength (inFlow : Bool) : List Char → Nat
  | [] => 0
  | c :: cs =>
    let next := cs.headD '\x00'
    let isBracket (c : Char) : Bool := c = ',' || c = '[' || c = ']' || c = '\x7b' || c = '\x7d'
    if isStop c then 0
    else if c = ':' && (isStop next || (inFlow && isBracket next)) then 0
    else if inFlow && (isBracket c || c = '?') then 0
    else plainLength inFlow cs + 1

/-- Passes over blanks and line ends; gives the line ends, or nothing at a mark between
documents. -/
def foldedBreaks : Nat → Scan (Option (List Char))
  | 0 => return some []
  | n + 1 => do
    let c ← peek 0
    if c = ' ' then
      forward 1
      foldedBreaks n
    else if isBreak c then
      let b ← lineBreak
      if ← atAnyMark then return none
      return (← foldedBreaks n).map (b ++ ·)
    else return some []

/-- What a line end and the empty lines after it become inside a text: a single line end is a
blank. -/
def foldedText (first rest : List Char) : List Char :=
  if first != ['\n'] then first ++ rest else if rest.isEmpty then [' '] else rest

def plainSpaces : Scan (List Char) := do
  let blanks ← takeWhile (· = ' ')
  if isBreak (← peek 0) then
    let first ← lineBreak
    allowKey true
    if ← atAnyMark then return []
    match ← foldedBreaks ((← get).rest.length + 1) with
    | some rest => return foldedText first rest
    | none => return []
  else return blanks

/-- The pieces of an unquoted text. `spaces` stands before the next piece. -/
def plainPieces (indent : Int) (spaces : List Char) : Nat → Scan (List Char)
  | 0 => return []
  | n + 1 => do
    let s ← get
    let size := plainLength (decide (0 < s.depth)) s.rest
    if (← peek 0) = '#' || size = 0 then return []
    allowKey false
    forward size
    let piece := spaces ++ s.rest.take size
    let next ← plainSpaces
    let s ← get
    if next.isEmpty || (← peek 0) = '#' || (s.depth = 0 && decide ((s.column : Int) < indent)) then
      return piece
    else return piece ++ (← plainPieces indent next n)

def escapes : List (Char × Char) :=
  [('0', '\x00'), ('a', '\x07'), ('b', '\x08'), ('t', '\t'), ('\t', '\t'), ('n', '\n'),
   ('v', '\x0b'), ('f', '\x0c'), ('r', '\r'), ('e', '\x1b'), (' ', ' '), ('"', '"'), ('\\', '\\'),
   ('/', '/'), ('N', '\x85'), ('_', '\xa0'), ('L', '\u2028'), ('P', '\u2029')]

def hexLength? : Char → Option Nat
  | 'x' => some 2
  | 'u' => some 4
  | 'U' => some 8
  | _ => none

def quotedBreaks : Nat → Scan (List Char)
  | 0 => return []
  | n + 1 => do
    if ← atAnyMark then failure
    let _ ← takeWhile fun c => c = ' ' || c = '\t'
    if isBreak (← peek 0) then
      let b ← lineBreak
      return b ++ (← quotedBreaks n)
    else return []

def quotedSpaces : Scan (List Char) := do
  let blanks ← takeWhile fun c => c = ' ' || c = '\t'
  let c ← peek 0
  if c = '\x00' then failure
  else if isBreak c then
    let first ← lineBreak
    return foldedText first (← quotedBreaks ((← get).rest.length + 1))
  else return blanks

def escape : Scan (List Char) := do
  let c ← peek 0
  match escapes.find? (·.1 == c) with
  | some (_, x) =>
    forward 1
    return [x]
  | none =>
    match hexLength? c with
    | some n =>
      forward 1
      let ds ← ((← get).rest.take n).mapM fun d => (Text.hexDigit? d : Option Nat)
      if ds.length < n then failure
      forward n
      return [Char.ofNat (ds.foldl (fun v d => v * 16 + d) 0)]
    | none =>
      if isBreak c then
        let _ ← lineBreak
        quotedBreaks ((← get).rest.length + 1)
      else failure

def quotedWord (double : Bool) : Nat → Scan (List Char)
  | 0 => return []
  | n + 1 => do
    let run ← takeWhile fun c => !(c = '\'' || c = '"' || c = '\\' || isStop c)
    let c ← peek 0
    if !double && c = '\'' && (← peek 1) = '\'' then
      forward 2
      return run ++ '\'' :: (← quotedWord double n)
    else if (double && c = '\'') || (!double && (c = '"' || c = '\\')) then
      forward 1
      return run ++ c :: (← quotedWord double n)
    else if double && c = '\\' then
      forward 1
      let x ← escape
      return run ++ x ++ (← quotedWord double n)
    else return run

def quotedPieces (double : Bool) : Nat → Scan (List Char)
  | 0 => failure
  | n + 1 => do
    let word ← quotedWord double ((← get).rest.length + 1)
    if (← peek 0) = (if double then '"' else '\'') then
      forward 1
      return word
    else
      let spaces ← quotedSpaces
      return word ++ spaces ++ (← quotedPieces double n)

def quoted (double : Bool) : Scan Unit := do
  savePending
  allowKey false
  forward 1
  let cs ← quotedPieces double ((← get).rest.length + 1)
  emit (.scalar (String.ofList cs) false)

def plain : Scan Unit := do
  savePending
  allowKey false
  let s ← get
  let cs ← plainPieces (s.indent + 1) [] (s.rest.length + 1)
  emit (.scalar (String.ofList cs) true)

def openFlow (t : Token) : Scan Unit := do
  savePending
  modify fun s => { s with depth := s.depth + 1 }
  allowKey true
  forward 1
  emit t

def closeFlow (t : Token) : Scan Unit := do
  dropPending
  if (← get).depth = 0 then failure
  modify fun s => { s with depth := s.depth - 1 }
  allowKey false
  forward 1
  emit t

def flowEntry : Scan Unit := do
  allowKey true
  dropPending
  forward 1
  emit .flowEntry

def blockEntry : Scan Unit := do
  let s ← get
  if s.depth = 0 then
    if !s.keyAllowed then failure
    if ← openBlock s.column then emit .sequenceStart
  allowKey true
  dropPending
  forward 1
  emit .entry

def explicitKey : Scan Unit := do
  let s ← get
  if s.depth = 0 then
    if !s.keyAllowed then failure
    if ← openBlock s.column then emit .mappingStart
  allowKey (s.depth = 0)
  dropPending
  forward 1
  emit .key

/-- Reads the colon of a value. If a key was pending, it has been one. -/
def valueMark : Scan Unit := do
  let s ← get
  match s.pending.find? (·.1 == s.depth) with
  | some (_, k) =>
    set { s with pending := s.pending.filter (·.1 != s.depth) }
    insert k.before .key
    if s.depth = 0 then
      if ← openBlock k.column then insert k.before .mappingStart
    allowKey false
  | none =>
    if s.depth = 0 then
      if !s.keyAllowed then failure
      if ← openBlock s.column then emit .mappingStart
    allowKey (s.depth = 0)
    dropPending
  forward 1
  emit .value

def documentMark (t : Token) : Scan Unit := do
  unwindTo (-1)
  dropPending
  allowKey false
  forward 3
  emit t

def atPlain : Scan Bool := do
  let c ← peek 0
  let next ← peek 1
  let special := "-?:,[]\x7b\x7d#&*!|>'\"%@\x60".toList
  return !(isStop c || special.contains c) ||
    (!isStop next && (c = '-' || ((← get).depth = 0 && (c = '?' || c = ':'))))

def next : Scan Bool := do
  let s ← get
  if s.index = 0 && s.rest.head? = some '\ufeff' then forward 1
  skip (s.rest.length + 1)
  dropStale
  unwindTo (← get).column
  let s ← get
  let c ← peek 0
  let followed := isStop (← peek 1)
  let inFlow := decide (0 < s.depth)
  if c = '\x00' then
    unwindTo (-1)
    dropPending
    return false
  if s.column = 0 && (← atMark ['-', '-', '-']) then documentMark .documentStart
  else if s.column = 0 && (← atMark ['.', '.', '.']) then documentMark .documentEnd
  else if c = '[' then openFlow .flowSequenceStart
  else if c = '\x7b' then openFlow .flowMappingStart
  else if c = ']' then closeFlow .flowSequenceEnd
  else if c = '\x7d' then closeFlow .flowMappingEnd
  else if c = ',' then flowEntry
  else if c = '-' && followed then blockEntry
  else if c = '?' && (inFlow || followed) then explicitKey
  else if c = ':' && (inFlow || followed) then valueMark
  else if c = '\'' then quoted false
  else if c = '"' then quoted true
  else if ← atPlain then plain
  else failure
  return true

def all : Nat → Scan Unit
  | 0 => failure
  | n + 1 => do if ← next then all n

end Scan

def isAllowed (c : Char) : Bool :=
  let n := c.toNat
  n = 9 || n = 10 || n = 13 || (32 ≤ n && n ≤ 126) || n = 0x85 || (0xA0 ≤ n && n ≤ 0xD7FF) ||
    (0xE000 ≤ n && n ≤ 0xFFFD) || 0x10000 ≤ n

def tokens? (text : String) : Option (List Token) :=
  let cs := text.toList
  if cs.all isAllowed then
    match Scan.all (cs.length + 2) { rest := cs } with
    | some (_, s) => some s.tokens.reverse
    | none => none
  else none

end SuiteTidy.Yaml
