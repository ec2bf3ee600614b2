import SuiteTidy.Fault

/-!
Reports of problems: a family of named kinds, each with its own fields, its words, and the more
general kinds that it belongs to.
-/

set_option autoImplicit false
set_option relaxedAutoImplicit false

namespace SuiteTidy

inductive ProblemKind where
  | domain
  | validation
  | entityNotFound
  | invalidOperation
  | infrastructure
  | reading
  | fileSystem
  | repository
  | application
  | useCase
  | service
  | parsing
  | malformedSource
  | malformedImport
  | malformedMock
  | malformedStructure
  | unsupportedFile
  | fileEncoding
  | configuration
  | schema
  | invalidFile
  | invalidPath
  | valueRange
  | requiredField
  | wrongType
deriving Repr, DecidableEq, Inhabited

namespace ProblemKind

def all : List ProblemKind :=
  [domain, validation, entityNotFound, invalidOperation, infrastructure, reading, fileSystem,
    repository, application, useCase, service, parsing, malformedSource, malformedImport,
    malformedMock, malformedStructure, unsupportedFile, fileEncoding, configuration, schema,
    invalidFile, invalidPath, valueRange, requiredField, wrongType]

def name : ProblemKind → String
  | domain => "DomainException"
  | validation => "ValidationException"
  | entityNotFound => "EntityNotFoundException"
  | invalidOperation => "InvalidOperationException"
  | infrastructure => "InfrastructureException"
  | reading => "ParsingException"
  | fileSystem => "FileSystemException"
  | repository => "RepositoryException"
  | application => "ApplicationException"
  | useCase => "UseCaseException"
  | service => "ServiceException"
  | parsing => "ParsingException"
  | malformedSource => "SyntaxParsingException"
  | malformedImport => "ImportParsingException"
  | malformedMock => "MockParsingException"
  | malformedStructure => "TestStructureParsingException"
  | unsupportedFile => "UnsupportedFileTypeException"
  | fileEncoding => "FileEncodingException"
  | configuration => "ConfigValidationException"
  | schema => "SchemaValidationException"
  | invalidFile => "FileValidationException"
  | invalidPath => "PathValidationException"
  | valueRange => "ValueRangeException"
  | requiredField => "RequiredFieldException"
  | wrongType => "TypeValidationException"

/-- The names of a kind and of the more general kinds that it belongs to. -/
def lineage (k : ProblemKind) : List String :=
  let above : List String :=
    match k with
    | domain | infrastructure | application => []
    | validation | entityNotFound | invalidOperation => ["DomainException"]
    | reading | fileSystem | repository | parsing => ["InfrastructureException"]
    | useCase | service => ["ApplicationException"]
    | malformedSource | malformedImport | malformedMock | malformedStructure | unsupportedFile
    | fileEncoding => ["ParsingException", "InfrastructureException"]
    | configuration | schema | invalidFile | invalidPath | valueRange | requiredField
    | wrongType => ["ValidationException", "DomainException"]
  k.name :: above ++ ["Exception"]

/-- The fields that a report of a kind is made from, in order, with the value of a field that is
left out. -/
def parameters : ProblemKind → List (String × Datum)
  | domain | validation | entityNotFound | invalidOperation =>
    [("message", .null), ("details", .null)]
  | infrastructure | reading | fileSystem | repository => [("message", .null), ("cause", .null)]
  | application | useCase | service => [("message", .null), ("recoverable", .bool false)]
  | parsing =>
    [("message", .null), ("file_path", .null), ("line_number", .null), ("cause", .null)]
  | malformedSource =>
    [("message", .null), ("file_path", .null), ("line_number", .null), ("syntax_error", .text "")]
  | malformedImport =>
    [("message", .null), ("import_statement", .text ""), ("file_path", .null),
      ("line_number", .null)]
  | malformedMock =>
    [("message", .null), ("mock_name", .text ""), ("file_path", .null), ("line_number", .null)]
  | malformedStructure =>
    [("message", .null), ("block_type", .text ""), ("file_path", .null), ("line_number", .null)]
  | unsupportedFile => [("file_path", .null), ("supported_types", .null)]
  | fileEncoding => [("file_path", .null), ("encoding", .null), ("cause", .null)]
  | configuration =>
    [("message", .null), ("config_key", .text ""), ("expected", .null), ("actual", .null)]
  | schema => [("message", .null), ("schema_path", .text ""), ("validation_errors", .null)]
  | invalidFile => [("message", .null), ("file_path", .text ""), ("validation_type", .text "")]
  | invalidPath => [("message", .null), ("path", .text ""), ("reason", .text "")]
  | valueRange =>
    [("message", .null), ("value", .null), ("min_value", .null), ("max_value", .null)]
  | requiredField => [("field_name", .null), ("object_type", .text "")]
  | wrongType =>
    [("message", .null), ("expected_type", .null), ("actual_type", .null), ("value", .null)]

end ProblemKind

/-- A report: its kind, its main words, all its words, and its fields. -/
structure Problem where
  kind : ProblemKind
  message : Datum
  words : String
  fields : List (String × Datum)

namespace Problem

/-- The values of the fields: those given in order, then those given by name, then the values of
fields that were left out. -/
def bind (parameters : List (String × Datum)) (inOrder : List Datum)
    (byName : List (String × Datum)) : List (String × Datum) :=
  match parameters, inOrder with
  | [], _ => []
  | (label, _) :: rest, v :: vs => (label, v) :: bind rest vs byName
  | (label, other) :: rest, [] => (label, (byName.lookup label).getD other) :: bind rest [] byName

def withDetails (kind : ProblemKind) (message details : Datum) (fields : List (String × Datum)) :
    Problem :=
  let details := if details.truthy then details else .dict []
  { kind, message
    words := message.plain ++
      (if details.truthy then " | Details: " ++ details.shown else "")
    fields := fields ++ [("message", message), ("details", details)] }

/-- The words of a report about a source file: the message, the file and the line. -/
def aboutSource (kind : ProblemKind) (message file line cause : Datum)
    (fields : List (String × Datum)) : Problem :=
  let fileWords := if file.truthy then [" | File: " ++ file.plain] else []
  let lineWords := if line.truthy then [" | Line: " ++ line.plain] else []
  { kind, message
    words := String.join (message.plain :: fileWords ++ lineWords)
    fields := fields ++
      [("file_path", file), ("line_number", line), ("message", message), ("cause", cause)] }

def commaJoined : Datum → Except DatumFault String
  | .list xs | .tuple xs => do
    let pick (item : Datum × Nat) : Except DatumFault String :=
      match item.1 with
      | .text s => .ok s
      | d => .error (.joinItem item.2 d.kindName)
    return ", ".intercalate (← xs.zipIdx.mapM pick)
  | .text s => .ok (", ".intercalate (s.toList.map String.singleton))
  | _ => .error .notJoinable

def nameOfKind : Datum → Except DatumFault String
  | .kind name => .ok name
  | d => .error (.missingAttribute d.kindName "__name__")

def make (kind : ProblemKind) (inOrder : List Datum) (byName : List (String × Datum)) :
    Except DatumFault Problem := do
  let given := bind kind.parameters inOrder byName
  let get (label : String) : Datum := (given.lookup label).getD .null
  let message := get "message"
  let own (labels : List String) : List (String × Datum) := labels.map fun l => (l, get l)
  let present (label field : String) : List (String × Datum) :=
    match get field with
    | .null => []
    | v => [(label, v)]
  let source (labels : List String) : Problem :=
    aboutSource kind message (get "file_path") (get "line_number") (get "cause") (own labels)
  match kind with
  | .domain | .validation | .entityNotFound | .invalidOperation =>
    return withDetails kind message (get "details") []
  | .infrastructure | .reading | .fileSystem | .repository =>
    return { kind, message, words := message.plain, fields := own ["message", "cause"] }
  | .application | .useCase | .service =>
    return { kind, message, words := message.plain, fields := own ["message", "recoverable"] }
  | .parsing => return source []
  | .malformedSource => return source ["syntax_error"]
  | .malformedImport => return source ["import_statement"]
  | .malformedMock => return source ["mock_name"]
  | .malformedStructure => return source ["block_type"]
  | .unsupportedFile =>
    match get "file_path" with
    | .path p =>
      let message := Datum.text ("Unsupported file type: " ++ p.suffix)
      let types ← commaJoined (get "supported_types")
      return { aboutSource kind message (.path p) .null .null (own ["supported_types"]) with
        words := message.plain ++ " | Supported: " ++ types }
    | d => throw (.missingAttribute d.kindName "suffix")
  | .fileEncoding =>
    let message := Datum.text ("Failed to read file with encoding: " ++ (get "encoding").plain)
    return aboutSource kind message (get "file_path") .null (get "cause") (own ["encoding"])
  | .configuration =>
    let details := own ["config_key"] ++ present "expected" "expected" ++ present "actual" "actual"
    return withDetails kind message (.record details) (own ["config_key", "expected", "actual"])
  | .schema =>
    let errors := if (get "validation_errors").truthy then get "validation_errors" else .list []
    let count ← match errors with
      | .list xs | .tuple xs => pure xs.length
      | .text s => pure s.length
      | .dict fs => pure fs.length
      | .bytes b => pure b.length
      | d => throw (.noLength d.kindName)
    return withDetails kind message
      (.record (own ["schema_path"] ++ [("error_count", .nat count)]))
      (own ["schema_path"] ++ [("validation_errors", errors)])
  | .invalidFile =>
    let fields := own ["file_path", "validation_type"]
    return withDetails kind message (.record fields) fields
  | .invalidPath =>
    let fields := own ["path", "reason"]
    return withDetails kind message (.record fields) fields
  | .valueRange =>
    let details := own ["value"] ++ present "min" "min_value" ++ present "max" "max_value"
    return withDetails kind message (.record details) (own ["value", "min_value", "max_value"])
  | .requiredField =>
    let fields := own ["field_name", "object_type"]
    let place := if (get "object_type").truthy then " in " ++ (get "object_type").plain else ""
    let message := Datum.text ("Required field missing: " ++ (get "field_name").plain ++ place)
    return withDetails kind message (.record fields) fields
  | .wrongType =>
    let expected ← nameOfKind (get "expected_type")
    let actual ← nameOfKind (get "actual_type")
    return withDetails kind message
      (.record [("expected_type", .text expected), ("actual_type", .text actual)])
      (own ["expected_type", "actual_type", "value"])

end Problem
end SuiteTidy
