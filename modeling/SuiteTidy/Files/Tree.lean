import SuiteTidy.Datum.Basic
import SuiteTidy.Files.Fault

/-!
A tree of files and directories, kept as the sorted list of its paths. The top of the tree is the
directory that the tool works in.
-/

set_option autoImplicit false
set_option relaxedAutoImplicit false

namespace SuiteTidy

/-- What a file holds: bytes, or a value that the tool has packed in a form of its own and reads
back whole. -/
inductive Content where
  | bytes (b : ByteArray)
  | packed (d : Datum)
deriving Inhabited

def Content.size : Content → Nat
  | bytes b => b.size
  | packed _ => 0

inductive Entry where
  | file (content : Content)
  | directory
deriving Inhabited

def Entry.isDirectory : Entry → Bool
  | directory => true
  | file _ => false

/-- The names that lead from the top of the tree to an entry. -/
abbrev Place : Type := List String

/-- Files and directories by place, in increasing order. The top itself is not listed. -/
structure FileTree where
  entries : List (Place × Entry) := []
deriving Inhabited

namespace FileTree

/-- Whether one place stands before another: by the first name that differs, and a directory before
what lies in it. -/
def placeBefore : Place → Place → Bool
  | [], [] => false
  | [], _ :: _ => true
  | _ :: _, [] => false
  | a :: as, b :: bs => if a = b then placeBefore as bs else a < b

/-- Places that exist outside the tree: the directories above it, and the top of the file system
with its directory for temporary files. -/
def isSurrounding (place : Place) : Bool :=
  place.all (· == "..") || place == ["/"] || place == ["/", "tmp"]

def findEntry (place : Place) : List (Place × Entry) → Option Entry
  | [] => none
  | (k, e) :: rest => if k = place then some e else findEntry place rest

def lookup (t : FileTree) (place : Place) : Option Entry :=
  if isSurrounding place then some .directory else findEntry place t.entries

def insertEntry (place : Place) (e : Entry) : List (Place × Entry) → List (Place × Entry)
  | [] => [(place, e)]
  | (k, x) :: rest =>
    if k = place then (place, e) :: rest
    else if placeBefore place k then (place, e) :: (k, x) :: rest
    else (k, x) :: insertEntry place e rest

def put (t : FileTree) (place : Place) (e : Entry) : FileTree :=
  { entries := insertEntry place e t.entries }

def erase (t : FileTree) (place : Place) : FileTree :=
  { entries := t.entries.filter fun (k, _) => k ≠ place }

def names (t : FileTree) (place : Place) : List String :=
  t.entries.filterMap fun (k, _) =>
    match k.drop place.length with
    | [name] => if k.take place.length = place then some name else none
    | _ => none

/-- The longest name that a file may have, in bytes. -/
def nameLimit : Nat := 255

/-- The directory above a place. Above the top of the tree are the surroundings, and nothing is
above the top of the file system. -/
def above (here : Place) : Place :=
  if here.all (· == "..") then here ++ [".."] else if here = ["/"] then here else here.dropLast

/-- Follows names from a directory. Each name is looked for in a directory that must exist; a double
dot leads to the directory above. -/
def follow (t : FileTree) (p : Path) : Place → List String → Except FileFault Place
  | here, [] => .ok here
  | here, name :: rest =>
    match t.lookup here with
    | none => .error (.missing p)
    | some (.file _) => .error (.notDirectory p)
    | some .directory =>
      if name = ".." then
        follow t p (above here) rest
      else if name.utf8ByteSize > nameLimit then .error (.nameTooLong p)
      else follow t p (here ++ [name]) rest

/-- The place that a path leads to, whether or not anything is there. -/
def locate (t : FileTree) (p : Path) : Except FileFault Place :=
  if p.parts.any (·.toList.contains '\x00') then .error .nullCharacter
  else t.follow p (if p.absolute then ["/"] else []) p.parts

def entry (t : FileTree) (p : Path) : Except FileFault Entry := do
  match t.lookup (← t.locate p) with
  | some e => return e
  | none => .error (.missing p)

/-- What a path leads to, if it leads anywhere. Only a name that is too long is still a fault. -/
def status (t : FileTree) (p : Path) : Except FileFault (Option Entry) :=
  match t.entry p with
  | .ok e => .ok (some e)
  | .error (.nameTooLong q) => .error (.nameTooLong q)
  | .error _ => .ok none

def exists_ (t : FileTree) (p : Path) : Except FileFault Bool := do return (← t.status p).isSome

def isFile (t : FileTree) (p : Path) : Except FileFault Bool := do
  return match ← t.status p with
    | some (.file _) => true
    | _ => false

def isDir (t : FileTree) (p : Path) : Except FileFault Bool := do
  return match ← t.status p with
    | some .directory => true
    | _ => false

def readContent (t : FileTree) (p : Path) : Except FileFault Content := do
  match ← t.entry p with
  | .file content => return content
  | .directory => .error (.isDirectory p)

def packedBreak : Encoding.Break :=
  { byte := 0x80, position := 0, length := 1, reason := .badStart }

def decode : Content → Except FileFault String
  | .packed _ => .error (.notText packedBreak)
  | .bytes bytes =>
    match String.fromUTF8? bytes with
    | some s => .ok s
    | none =>
      match Encoding.firstBreak bytes.toList with
      | some b => .error (.notText b)
      | none => .error .nullCharacter

def readExact (t : FileTree) (p : Path) : Except FileFault String := do decode (← t.readContent p)

/-- The text of a file with every line end as a line feed. -/
def readText (t : FileTree) (p : Path) : Except FileFault String := do
  return String.ofList (Text.normalNewlines (← t.readExact p).toList)

/-- The tree after a file has been written. The directory of the file must exist. -/
def writeContent (t : FileTree) (p : Path) (content : Content) : Except FileFault FileTree := do
  let place ← t.locate p
  match t.lookup place with
  | some .directory => .error (.isDirectory p)
  | some (.file _) => return t.put place (.file content)
  | none =>
    match t.lookup place.dropLast with
    | some .directory => return t.put place (.file content)
    | _ => .error (.missing p)

def writeText (t : FileTree) (p : Path) (s : String) : Except FileFault FileTree :=
  t.writeContent p (.bytes s.toUTF8)

def makeDirectory (t : FileTree) (p : Path) : Except FileFault FileTree := do
  let place ← t.locate p
  match t.lookup place with
  | some _ => .error (.present p)
  | none =>
    match t.lookup place.dropLast with
    | some .directory => return t.put place .directory
    | _ => .error (.missing p)

def removeFile (t : FileTree) (p : Path) : Except FileFault FileTree := do
  let place ← t.locate p
  match t.lookup place with
  | some (.file _) => return t.erase place
  | some .directory => .error (.isDirectory p)
  | none => .error (.missing p)

/-- The tree without an empty directory. The directory that the tool works in cannot go. -/
def removeDirectory (t : FileTree) (p : Path) : Except FileFault FileTree := do
  let place ← t.locate p
  match t.lookup place with
  | some .directory =>
    if p.parts.isEmpty then .error (.invalid p)
    else if (t.names place).isEmpty then return t.erase place
    else .error (.notEmpty p)
  | some (.file _) => .error (.notDirectory p)
  | none => .error (.missing p)

def list (t : FileTree) (p : Path) : Except FileFault (List String) := do
  let place ← t.locate p
  match t.lookup place with
  | some .directory => return t.names place
  | some (.file _) => .error (.notDirectory p)
  | none => .error (.missing p)

/-- The files, and the directories with nothing in them, each with its path. What lies outside the
directory of the tool is left out. -/
def leaves (t : FileTree) : List (String × Option Content) :=
  t.entries.filterMap fun (k, e) =>
    let name := "/".intercalate k
    if k.head? == some ".." || k.head? == some "/" then none
    else
      match e with
      | .directory => if (t.names k).isEmpty then some (name, none) else none
      | .file c => some (name, some c)

/-- Whether a place lies below another. The surroundings of the tree do not lie below its top. -/
def isBelow (place other : Place) : Bool :=
  place.isPrefixOf other &&
    match other.drop place.length with
    | [] => false
    | name :: _ => name != ".." && name != "/"

/-- The entries below a place, in the order in which they are listed, with the names from there. -/
def inside (place : Place) (entries : List (Place × Entry)) : List (Place × Entry) :=
  entries.filterMap fun x =>
    if isBelow place x.1 then some (x.1.drop place.length, x.2) else none

/-- Whether an entry is found before another: by the directory that holds it, and by name within a
directory. -/
def foundBefore (a b : Place × Entry) : Bool :=
  if a.1.dropLast = b.1.dropLast then !placeBefore b.1 a.1
  else !placeBefore b.1.dropLast a.1.dropLast

def below (t : FileTree) (place : Place) : List (Place × Entry) :=
  (inside place t.entries).mergeSort foundBefore

end FileTree
end SuiteTidy
