import SuiteTidy.Yaml.Token

/-!
The nodes of a YAML document: texts, sequences and mappings, before the texts are given a meaning.
-/

set_option autoImplicit false
set_option relaxedAutoImplicit false

namespace SuiteTidy.Yaml

/-- A part of a document. A text says whether it stands without quotes. -/
inductive Node where
  | scalar (text : String) (plain : Bool)
  | sequence (items : List Node)
  | mapping (fields : List (Node × Node))
deriving Inhabited

def Node.empty : Node := .scalar "" true

/-- A step over tokens. It has no result where they do not form a document. -/
abbrev Parse (α : Type) : Type := StateT (List Token) Option α

namespace Parse

def sees (ts : List Token) : Parse Bool := do
  match (← get).head? with
  | some t => return ts.contains t
  | none => return false

def pass : Parse Unit := modify (·.drop 1)

def accepts (t : Token) : Parse Bool := do
  if ← sees [t] then
    pass
    return true
  else return false

def expect (t : Token) : Parse Unit := do
  if !(← accepts t) then failure

mutual
/-- Reads a node. In the place of a value, entries that are not indented deeper are allowed. The
last argument bounds the number of steps. -/
def node (block atValue : Bool) : Nat → Parse Node
  | 0 => failure
  | n + 1 => do
    match (← get).head? with
    | some (.scalar s plain) =>
      pass
      return .scalar s plain
    | some .flowSequenceStart =>
      pass
      return .sequence (← flowItems true n)
    | some .flowMappingStart =>
      pass
      return .mapping (← flowFields true n)
    | some .sequenceStart =>
      if !block then failure
      pass
      let xs ← entries n
      expect .blockEnd
      return .sequence xs
    | some .mappingStart =>
      if !block then failure
      pass
      let fs ← fields n
      expect .blockEnd
      return .mapping fs
    | some .entry =>
      if !atValue then failure
      return .sequence (← looseEntries n)
    | _ => failure

def nodeUnless (stops : List Token) (block atValue : Bool) : Nat → Parse Node
  | 0 => failure
  | n + 1 => do if ← sees stops then return .empty else node block atValue n

def entries : Nat → Parse (List Node)
  | 0 => failure
  | n + 1 => do
    if ← accepts .entry then
      let x ← nodeUnless [.entry, .blockEnd] true false n
      return x :: (← entries n)
    else return []

/-- Reads the entries of a sequence that is not indented deeper than its key. -/
def looseEntries : Nat → Parse (List Node)
  | 0 => failure
  | n + 1 => do
    if ← accepts .entry then
      let x ← nodeUnless [.entry, .key, .value, .blockEnd] true false n
      return x :: (← looseEntries n)
    else return []

def fields : Nat → Parse (List (Node × Node))
  | 0 => failure
  | n + 1 => do
    if ← accepts .key then
      let k ← nodeUnless [.key, .value, .blockEnd] true true n
      let v ← if ← accepts .value then nodeUnless [.key, .value, .blockEnd] true true n
        else pure .empty
      return (k, v) :: (← fields n)
    else return []

/-- Reads the items between square brackets up to the closing one. A field among them is a mapping
of its own. -/
def flowItems (first : Bool) : Nat → Parse (List Node)
  | 0 => failure
  | n + 1 => do
    if ← accepts .flowSequenceEnd then return []
    if !first then expect .flowEntry
    if ← accepts .key then
      let k ← nodeUnless [.value, .flowEntry, .flowSequenceEnd] false false n
      let v ← if ← accepts .value then nodeUnless [.flowEntry, .flowSequenceEnd] false false n
        else pure .empty
      return .mapping [(k, v)] :: (← flowItems false n)
    else if ← accepts .flowSequenceEnd then return []
    else
      let x ← node false false n
      return x :: (← flowItems false n)

def flowFields (first : Bool) : Nat → Parse (List (Node × Node))
  | 0 => failure
  | n + 1 => do
    if ← accepts .flowMappingEnd then return []
    if !first then expect .flowEntry
    if ← accepts .key then
      let k ← nodeUnless [.value, .flowEntry, .flowMappingEnd] false false n
      let v ← if ← accepts .value then nodeUnless [.flowEntry, .flowMappingEnd] false false n
        else pure .empty
      return (k, v) :: (← flowFields false n)
    else if ← accepts .flowMappingEnd then return []
    else
      let k ← node false false n
      return (k, .empty) :: (← flowFields false n)
end

def passEnds : Parse Unit := modify (·.dropWhile (· == .documentEnd))

/-- Reads the only document of a text. A text without any is the empty node. -/
def document (bound : Nat) : Parse Node := do
  if (← get).isEmpty then return .empty
  let marked ← accepts .documentStart
  let blank := marked && ((← get).isEmpty || (← sees [.documentStart, .documentEnd]))
  let root ← if blank then pure .empty else node true false bound
  passEnds
  if (← get).isEmpty then return root else failure

end Parse

def node? (text : String) : Option Node := do
  let ts ← tokens? text
  let (root, _) ← Parse.document (4 * ts.length + 4) ts
  return root

end SuiteTidy.Yaml
