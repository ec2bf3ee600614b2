import SuiteTidy.Datum.Order
import SuiteTidy.Files.Tree
import SuiteTidy.Fault
import SuiteTidy.Text.Word

/-!
Rules that settings have to keep. The check stops at the first broken rule.
-/

set_option autoImplicit false
set_option relaxedAutoImplicit false

namespace SuiteTidy.SettingsCheck

/-- The sections that must be there, and the fields in each. -/
def required : List (String × List String) :=
  [("project", ["name", "version"]), ("scanning", ["root_directory"]),
   ("thresholds", ["complexity", "quality", "refactoring"])]

def logLevels : List String := ["DEBUG", "INFO", "WARNING", "ERROR", "CRITICAL"]

def outputFormats : List String := ["json", "yaml", "html", "markdown"]

abbrev Checked (α : Type) : Type := Except Fault α

def look {α : Type} (r : Datum.Found α) : Checked α := r.mapError .datum

def fieldOr (d : Datum) (key : String) (other : Datum) : Checked Datum := look (d.itemOr key other)

def ensure (holds : Bool) (rule : String) (details : List (String × Datum)) : Checked Unit :=
  if holds then .ok () else .error (.invalid rule details)

def compared (c : Datum.Comparison) (a b : Datum) : Checked Bool := look (Datum.compared c a b)

def requiredParts (d : Datum) : Checked Unit :=
  required.forM fun (part, names) => do
    ensure (← look (d.holds part)) ("Missing required section: " ++ part)
      [("section", .text part)]
    let inner ← look (d.item part)
    names.forM fun name => do
      ensure (← look (inner.holds name))
        ("Missing required field in " ++ part ++ ": " ++ name)
        [("section", .text part), ("field", .text name)]

/-- Whether a list is three numbers with points between them. A line end may follow. -/
def isVersion (s : String) : Bool :=
  let cs := s.toList
  let cs := if cs.getLast? = some '\n' then cs.dropLast else cs
  let numbers := (String.ofList cs).splitOn "."
  numbers.length == 3 && numbers.all fun n => !n.isEmpty && n.toList.all Text.isDecimal

def project (d : Datum) : Checked Unit := do
  ensure (← fieldOr d "name" .null).truthy "Project name cannot be empty" []
  let version ← fieldOr d "version" (.text "")
  match version with
  | .text s =>
    ensure (isVersion s) "Invalid version format (expected: X.Y.Z)" [("version", version)]
  | .bytes _ => .error (.datum .bytesMatched)
  | d => .error (.datum (.notMatchable d.kindName))

def pathOf : Datum → Checked Path
  | .text s => .ok (.ofString s)
  | .path p => .ok p
  | .bytes _ => .error (.datum (.notTextPath "bytes"))
  | d => .error (.datum (.notPathLike d.kindName))

def scanning (t : FileTree) (d : Datum) : Checked Unit := do
  let root ← fieldOr d "root_directory" .null
  if root.truthy then
    let found ← (t.exists_ (← pathOf root)).mapError .file
    ensure found "Root directory does not exist" [("path", root)]
  let workers ← fieldOr d "max_workers" (.int 4)
  let workersFit := match workers with
    | .int n => decide (1 ≤ n) && decide (n ≤ 16)
    | .bool b => b
    | _ => false
  ensure workersFit "max_workers must be between 1 and 16" [("value", workers)]
  let size ← fieldOr d "max_file_size_mb" (.int 5)
  let sizeFits := match size.number? with
    | some x => !x.atMost (.int 0)
    | none => false
  ensure sizeFits "max_file_size_mb must be positive" [("value", size)]

def thresholds (d : Datum) : Checked Unit := do
  let complexity ← fieldOr d "complexity" (.dict [])
  let simple ← fieldOr complexity "simple_max" (.int 30)
  let medium ← fieldOr complexity "medium_max" (.int 60)
  ensure (!(← compared .atLeast simple medium)) "simple_max must be less than medium_max"
    [("simple_max", simple), ("medium_max", medium)]
  let quality ← fieldOr d "quality" (.dict [])
  let excellent ← fieldOr quality "excellent_min" (.int 80)
  let good ← fieldOr quality "good_min" (.int 60)
  let fair ← fieldOr quality "fair_min" (.int 40)
  let rising ← if ← compared .less fair good then compared .less good excellent else pure false
  ensure rising "Quality thresholds must be: fair < good < excellent"
    [("fair", fair), ("good", good), ("excellent", excellent)]

def isOneOf (words : List String) : Datum → Bool
  | .text s => words.contains s
  | _ => false

mutual
/-- Whether an integer in a value has too many digits to be written. -/
def hasLongInteger : Datum → Bool
  | .int n => decide (Json.digitLimit < (toString n.natAbs).length)
  | .list xs => anyLongInteger xs
  | .tuple xs => anyLongInteger xs
  | .dict fs => anyLongField fs
  | _ => false

def anyLongInteger : List Datum → Bool
  | [] => false
  | x :: xs => hasLongInteger x || anyLongInteger xs

def anyLongField : List (Datum × Datum) → Bool
  | [] => false
  | (k, v) :: fs => hasLongInteger k || hasLongInteger v || anyLongField fs
end

def worded (d : Datum) : Checked String :=
  if hasLongInteger d then .error (.json .tooManyDigitsToWrite) else .ok d.plain

def ensureOneOf (words : List String) (about key : String) (d : Datum) : Checked Unit := do
  if isOneOf words d then return
  ensure false (about ++ ": " ++ (← worded d)) [(key, .texts words)]

def output (d : Datum) : Checked Unit := do
  let formats ← fieldOr d "formats" (.list [])
  if formats.truthy then
    (← look formats.members).forM
      (ensureOneOf outputFormats "Invalid output format" "valid_formats")

def logging (d : Datum) : Checked Unit := do
  ensureOneOf logLevels "Invalid log level" "valid_levels" (← fieldOr d "level" (.text "INFO"))

def check (t : FileTree) (d : Datum) : Checked Unit := do
  requiredParts d
  project (← fieldOr d "project" (.dict []))
  scanning t (← fieldOr d "scanning" (.dict []))
  thresholds (← fieldOr d "thresholds" (.dict []))
  output (← fieldOr d "output" (.dict []))
  logging (← fieldOr d "logging" (.dict []))

def errors (t : FileTree) (d : Datum) : Checked (List String) :=
  match check t d with
  | .ok () => .ok []
  | .error (.invalid rule _) => .ok [rule]
  | .error f => .error f

end SuiteTidy.SettingsCheck
