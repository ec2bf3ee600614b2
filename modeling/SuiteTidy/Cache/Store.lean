import SuiteTidy.Cache.Span
import SuiteTidy.Workspace

/-!
A cache of values that expire, kept twice: in memory, and in a directory with one file for each key.
A value is found in memory first, and one that is read from its file is kept in memory.
-/

set_option autoImplicit false
set_option relaxedAutoImplicit false

namespace SuiteTidy

/-- A cached value, the times at which it was made and expires, and how often it was asked for. -/
structure CacheEntry where
  key : String
  value : Datum
  createdAt : Moment
  expiresAt : Moment
  hits : Nat := 0
deriving Inhabited

namespace CacheEntry

def isExpired (now : Moment) (e : CacheEntry) : Bool := e.expiresAt.micros < now.micros

def pack (e : CacheEntry) : Datum :=
  .tuple [.text e.key, e.value, .moment e.createdAt, .moment e.expiresAt, .nat e.hits]

def unpack? : Datum → Option CacheEntry
  | .tuple [.text key, value, .moment createdAt, .moment expiresAt, .int hits] =>
    some { key, value, createdAt, expiresAt, hits := hits.toNat }
  | _ => none

end CacheEntry

/-- A cache: its directory, the hours that a value is kept by default, and what is in memory. -/
structure Cache where
  folder : Path
  hours : Datum := .int 24
  memory : List (String × CacheEntry) := []
deriving Inhabited

namespace Cache

def openAt (folder : Path) (hours : Datum) : Work Cache := do
  Work.makeDirectories folder
  return { folder, hours }

def ending : String := ".cache"

def fileOf (c : Cache) (key : String) : Path :=
  c.folder.below (Path.flatName key ++ ending)

def known? (c : Cache) (key : String) : Option CacheEntry :=
  (c.memory.find? (·.1 == key)).map (·.2)

def remember (c : Cache) (key : String) (e : CacheEntry) : Cache :=
  { c with memory := place c.memory }
where
  /-- Puts the entry in the place of an older one, or at the end. -/
  place : List (String × CacheEntry) → List (String × CacheEntry)
    | [] => [(key, e)]
    | (k, x) :: rest => if k = key then (k, e) :: rest else (k, x) :: place rest

def forget (c : Cache) (key : String) : Cache :=
  { c with memory := c.memory.filter (·.1 != key) }

def readEntry (p : Path) : Work (Option CacheEntry) := do
  match (← Work.files).readContent p with
  | .ok (.packed d) => return CacheEntry.unpack? d
  | _ => return none

/-- The value of a key, if it has one that has not expired. An expired entry is removed from where
it was found. -/
def get (c : Cache) (key : String) (useMemory : Bool) : Work (Cache × Option Datum) := do
  let now ← Work.now
  match if useMemory then c.known? key else none with
  | some e =>
    if e.isExpired now then return (c.forget key, none)
    else return (c.remember key { e with hits := e.hits + 1 }, some e.value)
  | none =>
    let file := c.fileOf key
    if ← Work.pathExists file then
      match ← readEntry file with
      | none => return (c, none)
      | some e =>
        if e.isExpired now then
          Work.orElse (Work.change fun t => t.removeFile file) ()
          return (c, none)
        else
          let met := { e with hits := e.hits + 1 }
          return (if useMemory then c.remember key met else c, some e.value)
    else return (c, none)

def hoursOf (c : Cache) (hours : Datum) : Option Number :=
  match hours with
  | .null => c.hours.number?
  | d => d.number?

/-- Keeps a value under a key, in its file and then in memory, and says whether it worked. -/
def set (c : Cache) (key : String) (value hours : Datum) (useMemory : Bool) :
    Work (Cache × Bool) := do
  let now ← Work.now
  match (c.hoursOf hours).bind (expiry? now) with
  | none => return (c, false)
  | some expiresAt =>
    let e : CacheEntry := { key, value, createdAt := now, expiresAt }
    match (← Work.files).writeContent (c.fileOf key) (.packed e.pack) with
    | .error _ => return (c, false)
    | .ok files =>
      modify fun w => { w with files }
      return (if useMemory then c.remember key e else c, true)

def removal (file : Path) : Work Bool := do
  if ← Work.pathExists file then
    Work.orElse (do Work.change fun t => t.removeFile file; return true) false
  else return true

/-- Removes a key, and says whether nothing of it is left. -/
def delete (c : Cache) (key : String) : Work (Cache × Except Fault Bool) := do
  return (c.forget key, ← Work.attempt (removal (c.fileOf key)))

def filesOf (c : Cache) : Work (List Path) := do
  match (← Work.files).list c.folder with
  | .ok names => return (names.filter (·.endsWith ending)).map fun n => c.folder.below n
  | .error _ => return []

def removeFiles (c : Cache) : Work Bool := do
  for file in ← c.filesOf do Work.change fun t => t.removeFile file
  return true

def clear (c : Cache) : Work (Cache × Bool) := do
  return ({ c with memory := [] }, ← Work.orElse c.removeFiles false)

/-- Removes the entry in a file if it has expired, and counts it. -/
def cleanFile (now : Moment) (file : Path) : Work Nat := do
  match ← readEntry file with
  | some e =>
    if e.isExpired now then
      Work.orElse (do Work.change fun t => t.removeFile file; return 1) 0
    else return 0
  | none => return 0

/-- Removes the entries that have expired, in memory and in files, and counts them. -/
def cleanup (c : Cache) : Work (Cache × Nat) := do
  let now ← Work.now
  let kept := c.memory.filter fun (_, e) => !e.isExpired now
  let counts ← (← c.filesOf).mapM (cleanFile now)
  return ({ c with memory := kept }, (c.memory.length - kept.length) + counts.foldr (· + ·) 0)

def statistics (c : Cache) : Work Datum := do
  let inFiles := (← c.filesOf).length
  let hits := (c.memory.map fun (_, e) => e.hits).foldr (· + ·) 0
  return .record [("total_entries", .nat (c.memory.length + inFiles)),
    ("memory_entries", .nat c.memory.length), ("file_entries", .nat inFiles),
    ("total_hits", .nat hits), ("cache_dir", .text c.folder.text)]

end Cache
end SuiteTidy
