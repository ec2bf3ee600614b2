import SuiteTidy.Metrics.Smell
import SuiteTidy.Scan
import SuiteTidy.Suite.Source
import SuiteTidy.TestFile.Store

/-!
Analysing the test files of a directory: reading each of them, judging it, and counting.
-/

set_option autoImplicit false
set_option relaxedAutoImplicit false

namespace SuiteTidy

structure Analysis where
  found : Nat
  files : List TestFile
  finishedAt : Moment

namespace Analysis

open SuiteTidy.Text

def isBlankLine (line : String) : Bool := (trim line.toList).isEmpty

def isCommentLine (line : String) : Bool := startsWith (trim line.toList) ['/', '/']

def factsOf (p : Path) (content : String) (size : Nat) (changed : Moment) : FileFacts :=
  let lines := linesOf content
  let count (f : String → Bool) : Int := (lines.countP f : Nat)
  { path := p, relativePath := p, module := p.parent.parent.name, sizeBytes := size,
    totalLines := lines.length
    codeLines := count fun l => !isBlankLine l && !isCommentLine l
    commentLines := count isCommentLine
    blankLines := count isBlankLine
    lastModified := changed }

def judged (p : Path) (content : String) (size : Nat) (now : Moment) : Except Fault TestFile := do
  let o := Suite.outline content
  let file : TestFile :=
    { facts := factsOf p content size now
      imports := o.importLines, mockData := o.mocks.map Suite.Mock.toDatum
      categories := o.categories, testCases := o.testCases, setupHooks := o.setupHooks
      analyzedAt := now }
  let measured := file.measured
  let quality ← measured.judgedQuality (.int o.cyclomatic) (.int measured.qualitySmells.length)
  return { measured with quality := some quality }

def analyzeFile (p : Path) : Work TestFile := do
  let content ← Work.readText p
  let size := (← Work.ask (·.readContent p)).size
  Work.lift (fun f => f) (judged p content size (← Work.now))

def candidates (a : Analysis) : List TestFile := a.files.filter (·.needsRefactoring)

/-- Analyses the test files of a directory and saves them. -/
def run (store : TestFileStore) (root : Path) : Work (Analysis × TestFileStore) := do
  let paths ← Work.ask (Scan.testFiles · root)
  let files ← paths.mapM analyzeFile
  let (store, saved) ← store.saveAll files
  Work.lift (fun f => f) saved
  return ({ found := paths.length, files, finishedAt := ← Work.now }, store)

def withLevel (files : List TestFile) (l : ComplexityLevel) : Nat :=
  files.countP fun t => t.complexityNow.level == l

def isCounted (x : Number) : QualityLevel → Bool
  | .excellent => Number.atMost (.int 80) x
  | .good => Number.atMost (.int 60) x && x.less (.int 80)
  | .fair => Number.atMost (.int 40) x && x.less (.int 60)
  | .poor => x.less (.int 40)

def withQuality (files : List TestFile) (l : QualityLevel) : Nat :=
  files.countP fun t => t.quality.any fun q => isCounted q.score l

/-- The figures of an analysis; none without files. -/
def statistics (a : Analysis) : Datum :=
  let fs := a.files
  if fs.isEmpty then .record []
  else
    let lines := (fs.map fun t => t.facts.totalLines).foldr (· + ·) 0
    let tests : Int := ((fs.map fun t => t.testCases.length).foldr (· + ·) 0 : Nat)
    .record [("total_files", .nat fs.length), ("total_lines", .int lines),
      ("total_tests", .int tests), ("avg_lines", .int (lines.fdiv fs.length)),
      ("avg_tests", .int (tests.fdiv fs.length)),
      ("complexity_distribution",
        .record (ComplexityLevel.all.map fun l => (l.word, .nat (withLevel fs l)))),
      ("quality_distribution",
        .record (QualityLevel.all.map fun l => (l.word, .nat (withQuality fs l))))]

/-- An analysis as a record. The clock stands still while an analysis runs. -/
def toDatum (a : Analysis) : Datum :=
  .record [("total_files", .nat a.found), ("analyzed_files", .nat a.files.length),
    ("candidates_for_refactoring", .nat a.candidates.length), ("statistics", a.statistics),
    ("execution_time", .real 0.0), ("timestamp", .moment a.finishedAt)]

def report (store : TestFileStore) (root : Path) (workers : Int) (verbose : Bool) :
    Work (Analysis × TestFileStore) := do
  if verbose then
    Work.printLine ("🔍 Analyzing test files in " ++ root.text)
    Work.printLine ("   Workers: " ++ toString workers)
  let (a, store) ← run store root
  if verbose then
    Work.printLine "\n✅ Analysis complete!"
    Work.printLine ("   Total files: " ++ toString a.found)
    Work.printLine ("   Analyzed: " ++ toString a.files.length)
    Work.printLine ("   Candidates: " ++ toString a.candidates.length)
    Work.printLine "   Time: 0.00s"
  return (a, store)

end Analysis
end SuiteTidy
