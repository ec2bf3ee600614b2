import SuiteTidy.Analysis

/-!
The commands that look at test files: a quick analysis, and learning, which keeps what it finds for
the planning that follows.
-/

set_option autoImplicit false
set_option relaxedAutoImplicit false

namespace SuiteTidy.Learning

/-- Does some work under a progress bar, which leaves an empty line when it ends. -/
def tracked {α : Type} (w : Work α) : Work α := do
  let r ← Work.attempt w
  Work.present (.text none)
  Work.lift (fun f => f) r

def showTable (t : Table) : Work Unit := do
  Work.say "\n"
  Work.present (.table t)

def figureColumns : List (String × String) := [("Metric", "cyan"), ("Value", "bold green")]

def levelColumns : List (String × String) := [("Level", "cyan"), ("Count", "bold")]

def showSummary (a : Analysis) : Work Unit := do
  showTable { Table.plain "Analysis Summary" figureColumns with
    rows := [["Total Files", toString a.found], ["Analyzed", toString a.files.length],
      ["Need Refactoring", toString a.candidates.length], ["Execution Time", "0.00s"]] }
  if !a.files.isEmpty then
    showTable { Table.make "Complexity Distribution" levelColumns with
      rows := ComplexityLevel.all.map fun l =>
        [capitalized l.word, toString (Analysis.withLevel a.files l)] }
  Work.say "\n[bold green]✅ Analysis complete![/bold green]"

def defaultOutput : Path := .ofString "output/training_data"

def analyze (root : Path) (workers : Int) (verbose : Bool) : Work Unit := do
  let store ← TestFileStore.openAt defaultOutput
  let (a, _) ← tracked (Analysis.report store root workers verbose)
  showSummary a

def share (n total : Nat) : String :=
  if total = 0 then "0.0%" else Decimal.fixed 1 (n.toFloat / total.toFloat * 100.0) ++ "%"

def showLevels (a : Analysis) : Work Unit := do
  let counts := ComplexityLevel.all.map fun l => (l.word, Analysis.withLevel a.files l)
  let total := (counts.map (·.2)).foldr (· + ·) 0
  showTable { Table.make "Complexity Distribution" (levelColumns ++ [("Percentage", "dim")]) with
    rows := counts.map fun (word, n) => [capitalized word, toString n, share n total] }
  showTable { Table.make "Quality Distribution" levelColumns with
    rows := QualityLevel.all.map fun l =>
      [capitalized l.word, toString (Analysis.withQuality a.files l)] }

def showResults (a : Analysis) (output : Path) : Work Unit := do
  showTable { Table.plain "📚 Learning Phase Results" figureColumns with
    rows := [["Total Files Found", toString a.found],
      ["Successfully Analyzed", toString a.files.length],
      ["Candidates for Refactoring", toString a.candidates.length],
      ["Execution Time", "0.00s"], ["Output Directory", output.text]] }
  if !a.files.isEmpty then showLevels a
  Work.say "\n[bold green]✅ Learning phase complete![/bold green]"
  Work.say "\n[dim]Next steps:[/dim]"
  Work.say "  1. Review results in output directory"
  Work.say "  2. Run: [cyan]refactor-ai practice[/cyan]"

/-- Learns from the test files of a directory and keeps the findings in another. -/
def learn (root output : Path) (workers : Int) (verbose : Bool) : Work Unit := do
  Work.present (.panel ("[bold cyan]Phase 1: Deep Learning[/bold cyan]\nRoot: " ++ root.text ++
    "\nOutput: " ++ output.text ++ "\nWorkers: " ++ toString workers) "cyan")
  let store ← TestFileStore.openAt output
  let (a, _) ← tracked (Analysis.report store root workers verbose)
  showResults a output

end SuiteTidy.Learning
