import SuiteTidy.Command.Usage
import SuiteTidy.Datum.Fault
import SuiteTidy.Files.Fault
import SuiteTidy.Files.Glob
import SuiteTidy.Json.Fault
import SuiteTidy.Moment.Basic

/-!
Everything that can end a step of the tool, and the words for it.
-/

set_option autoImplicit false
set_option relaxedAutoImplicit false

namespace SuiteTidy

/-- Why a step of the tool ended without a result. -/
inductive Fault where
  | number (cause : NumberFault)
  | datum (cause : DatumFault)
  | json (cause : Json.Fault)
  | file (cause : FileFault)
  | moment (cause : Moment.Fault)
  | pattern (cause : Glob.PatternFault)
  | tooFewWorkers
  | emptyStep
  | scoreOutOfRange (score : Number)
  | nothingPlanned
  | noFile
  | noMetadata
  /-- A text that should be a YAML document is none. -/
  | notYaml
  | noSettings (source : Path)
  | usage (cause : UsageFault)
  /-- A question was not answered. -/
  | aborted
  | noStructure
  /-- A rule that a value, file or plan breaks, and what it is about. -/
  | invalid (rule : String) (details : List (String × Datum))
deriving Inhabited

namespace Fault

def ruleText (rule : String) (details : List (String × Datum)) : String :=
  if details.isEmpty then rule else rule ++ " | Details: " ++ (Datum.record details).shown

def message : Fault → String
  | number cause => cause.message
  | datum cause => cause.message
  | json cause => cause.message
  | file cause => cause.message
  | moment (.malformed t) => "Invalid isoformat string: " ++ quoted t
  | moment (.field words) => words
  | pattern cause => cause.message
  | tooFewWorkers => "max_workers must be greater than 0"
  | emptyStep => "range() arg 3 must not be zero"
  | scoreOutOfRange score => "Score must be between 0-100, got " ++ score.text
  | nothingPlanned => "Cannot mark plan as ready: no operations defined"
  | noFile => "TestFile cannot be None"
  | noMetadata => "TestFile must have metadata"
  | notYaml => ""
  | usage cause => cause.message
  | aborted => ""
  | noStructure => "No module named 'scripts.setup_structure'"
  | noSettings source => "Config file not found: " ++ source.text
  | invalid rule details => ruleText rule details

end Fault
end SuiteTidy
