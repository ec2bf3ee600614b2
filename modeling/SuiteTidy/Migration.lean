import SuiteTidy.Files.Glob
import SuiteTidy.Workspace

/-!
Moving a source tree to a new structure: the old files are packed into an archive, copied to their
new places, their import lines are changed to match, and files that are still missing are made.
-/

set_option autoImplicit false
set_option relaxedAutoImplicit false

namespace SuiteTidy

/-- Where the old files are, where the new ones go, and the directories of the new structure;
without these the structure cannot be made. -/
structure Migration where
  source : Path
  target : Path
  structure? : Option (List Path) := none

namespace Migration

def moves : List (String × String) :=
  [("models/test_file.py", "src/domain/entities/test_file.py"),
   ("models/pattern.py", "src/domain/entities/pattern.py"),
   ("models/refactor_plan.py", "src/domain/entities/refactor_plan.py"),
   ("core/code_parser.py", "src/infrastructure/parsers/base_parser.py"),
   ("core/pattern_analyzer.py", "src/infrastructure/analyzers/base_analyzer.py"),
   ("core/file_scanner.py", "src/infrastructure/scanners/file_scanner.py"),
   ("core/refactor_engine.py", "src/infrastructure/generators/code_generator.py"),
   ("training/phase1_learning.py", "src/application/use_cases/analyze_test_files.py"),
   ("training/phase2_practice.py", "src/application/use_cases/generate_refactor_plan.py"),
   ("training/phase3_execution.py", "src/application/use_cases/execute_refactoring.py"),
   ("main.py", "src/interfaces/cli/main.py")]

def importChanges : List (String × String) :=
  [("from models.", "from src.domain.entities."), ("from core.", "from src.infrastructure."),
   ("from training.", "from src.application."), ("from utils.", "from src.shared.utils.")]

def archived : List String := ["core", "models", "training", "utils", "main.py", "config.yaml"]

def changeImports (content : String) : String :=
  importChanges.foldl (fun s (old, new) => replaced s old new) content

def errorsStub : String := unlines
  ["\"\"\"Base Exceptions\"\"\"", "", "class DomainException(Exception):",
   "    \"\"\"Base domain exception\"\"\"", "    pass",
   "", "class ValidationException(DomainException):", "    \"\"\"Validation error\"\"\"",
   "    pass", "",
   "class ParsingException(DomainException):", "    \"\"\"Parsing error\"\"\"", "    pass", ""]

def checksStub : String := unlines
  ["\"\"\"File Validator\"\"\"", "", "from pathlib import Path", "", "class FileValidator:",
   "    \"\"\"Validates file operations\"\"\"", "    ", "    @staticmethod",
   "    def validate_path(path: Path) -> bool:", "        \"\"\"Validate file path\"\"\"",
   "        return path.exists() and path.is_file()", "    ", "    @staticmethod",
   "    def validate_test_file(path: Path) -> bool:", "        \"\"\"Validate test file\"\"\"",
   "        return path.suffix in ['.ts', '.tsx'] and 'spec' in path.name", ""]

def stubs : List (String × String) :=
  [("src/shared/exceptions/base_exceptions.py", errorsStub),
   ("src/shared/validators/file_validator.py", checksStub)]

/-- The names that an item brings into an archive: itself and all below it. -/
def membersOf (t : FileTree) (item : String) : Except FileFault (List String) := do
  let p := Path.ofString item
  if ← t.exists_ p then
    let place ← t.locate p
    return item :: (t.below place).map fun (names, _) => "/".intercalate (item :: names)
  else return []

def backup : Work Unit := do
  let name := "backup_" ++ (← Work.now).stamp ++ ".tar.gz"
  let members ← Work.ask fun t => return (← archived.mapM (membersOf t)).flatten
  Work.change fun t =>
    t.writeContent (.ofString name) (.packed (.texts (members.mergeSort fun a b => a ≤ b)))
  Work.printLine ("   Backup saved: " ++ name)

def makeStructure (m : Migration) : Work Unit := do
  match m.structure? with
  | some folders => folders.forM Work.makeDirectories
  | none => throw .noStructure

def extract (m : Migration) : Work Unit :=
  moves.forM fun (old, new) => do
    let source := m.source.below old
    if ← Work.pathExists source then
      Work.printLine ("   Processing " ++ old ++ "...")
      let target := m.target.below new
      Work.makeDirectories target.parent
      Work.copyFile source target
      Work.printLine ("      → " ++ new)

def updateFile (m : Migration) (p : Path) : Work Unit := do
  let content ← Work.readText p
  let changed := changeImports content
  if changed != content then
    Work.writeText p changed
    let shown := (p.relativeTo? m.target).getD p
    Work.printLine ("   Updated imports in " ++ shown.text)

/-- Changes the imports in all files of the new structure but those that only mark a directory. -/
def updateImports (m : Migration) : Work Unit := do
  let found ← Work.ask fun t =>
    Glob.findBelow t m.target [.name "src", .anyDepth, .wildcard "*.py"]
  (found.filter (·.name != "__init__.py")).forM (updateFile m)

def makeStubs (m : Migration) : Work Unit :=
  stubs.forM fun (place, content) => do
    let target := m.target.below place
    Work.makeDirectories target.parent
    Work.writeText target content
    Work.printLine ("   Created " ++ place)

def announced (before after : String) (step : Work Unit) : Work Unit := do
  Work.printLine before
  step
  Work.printLine ("   ✓ " ++ after ++ "\n")

def run (m : Migration) : Work Unit := do
  Work.printLine "\n🚀 Starting migration...\n"
  announced "📦 Step 1: Creating backup..." "Backup created" backup
  announced "🏗️  Step 2: Creating new structure..." "Structure created" m.makeStructure
  announced "✂️  Step 3: Extracting and splitting code..." "Code extracted" m.extract
  announced "🔗 Step 4: Updating imports..." "Imports updated" m.updateImports
  announced "📝 Step 5: Generating stubs..." "Stubs generated" m.makeStubs
  Work.printLine "✅ Migration complete!\n"
  Work.printLine "Next steps:"
  Work.printLine "  1. Review generated code"
  Work.printLine "  2. Run: pytest tests/"
  Work.printLine "  3. Run: mypy src/"
  Work.printLine "  4. Fix any remaining issues"

/-- The migration that words on a command line ask for: from where, and to where. -/
def ofArgs (args : List String) (structure? : Option (List Path)) : Migration :=
  { source := .ofString (args[0]?.getD "."), target := .ofString (args[1]?.getD "."), structure? }

end Migration
end SuiteTidy
