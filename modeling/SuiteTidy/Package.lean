import SuiteTidy.Text.Blank
import SuiteTidy.Workspace

/-!
The package of the tool: how it is described to those who install it, which directories belong to
it, and what it needs.
-/

set_option autoImplicit false
set_option relaxedAutoImplicit false

namespace SuiteTidy.Package

/-- Whether a directory is a package: it holds the file that marks one. -/
def isPackage (t : FileTree) (place : List String) : Bool :=
  (t.lookup (place ++ ["__init__.py"])).isSome

/-- Whether names lead through packages only, from a directory on. -/
def allPackages (t : FileTree) (root : List String) : List String → Bool
  | [] => true
  | name :: names =>
    !name.toList.contains '.' && isPackage t (root ++ [name]) &&
      allPackages t (root ++ [name]) names

def packages (t : FileTree) (root : List String) : List String :=
  let found := (t.below root).filterMap fun (names, e) =>
    if e.isDirectory && allPackages t root names then some (".".intercalate names) else none
  found.mergeSort fun a b => a ≤ b

def endsLine (c : Char) : Bool :=
  let n := c.toNat
  (0x0A ≤ n && n ≤ 0x0D) || (0x1C ≤ n && n ≤ 0x1E) || n = 0x85 || n = 0x2028 || n = 0x2029

/-- The requirements in a text: the lines that are neither blank nor comments. -/
def requirementsIn (s : String) : List String :=
  let lines := (s.toList.splitOnP endsLine).map String.ofList
  (lines.filter fun l => !(trimmed l).isEmpty && l.toList.head? != some '#').map trimmed

def textOrNothing (p : Path) : Work String := do
  if ← Work.pathExists p then Work.readText p else return ""

def requirements (p : Path) : Work (List String) := do
  return requirementsIn (← textOrNothing p)

def needed : List String := ["pydantic>=2.0.0", "rich>=13.0.0", "typer>=0.9.0", "pyyaml>=6.0.0"]

def extras : List (String × List String) :=
  [("dev", ["pytest>=7.4.0", "pytest-cov>=4.1.0", "pytest-asyncio>=0.21.0", "black>=23.0.0",
     "ruff>=0.1.0", "mypy>=1.5.0", "pre-commit>=3.4.0", "types-PyYAML>=6.0.0"]),
   ("docs", ["sphinx>=7.0.0", "sphinx-rtd-theme>=1.3.0"])]

def headings : List String :=
  ["Development Status :: 4 - Beta", "Intended Audience :: Developers",
   "License :: OSI Approved :: MIT License", "Operating System :: OS Independent",
   "Programming Language :: Python :: 3", "Programming Language :: Python :: 3.8",
   "Programming Language :: Python :: 3.9", "Programming Language :: Python :: 3.10",
   "Programming Language :: Python :: 3.11", "Programming Language :: Python :: 3.12",
   "Topic :: Software Development :: Code Generators",
   "Topic :: Software Development :: Quality Assurance",
   "Topic :: Software Development :: Testing"]

/-- The description of the package whose directories lie in `src`, with its long description. -/
def description (t : FileTree) (long : String) : Datum :=
  .record
    [("name", .text "test-refactor-ai"), ("version", .text "2.1.0"),
     ("description", .text "Intelligent TypeScript test file refactoring with AI"),
     ("long_description", .text long),
     ("long_description_content_type", .text "text/markdown"), ("author", .text "Your Name"),
     ("author_email", .text "your@email.com"),
     ("url", .text "https://github.com/yourusername/test-refactor-ai"),
     ("packages", .texts (packages t ["src"])), ("package_dir", .record [("", .text "src")]),
     ("python_requires", .text ">=3.8"), ("install_requires", .texts needed),
     ("extras_require", .record (extras.map fun (k, v) => (k, .texts v))),
     ("entry_points", .record
       [("console_scripts", .texts ["refactor-ai=src.interfaces.cli.main:app"])]),
     ("classifiers", .texts headings),
     ("keywords", .text "typescript testing refactoring ai code-quality"),
     ("include_package_data", .bool true), ("zip_safe", .bool false)]

def describe (home : Path) : Work Datum := do
  return description (← Work.files) (← textOrNothing (home.below "README.md"))

end SuiteTidy.Package
