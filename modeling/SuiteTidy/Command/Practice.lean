import SuiteTidy.Command.Learning
import SuiteTidy.Datum.Order

/-!
The command that makes plans for the files that learning has found. The findings are read from a
file, so they may have any shape.
-/

set_option autoImplicit false
set_option relaxedAutoImplicit false

namespace SuiteTidy.Practice

def fileName : Datum → Datum.Found String
  | .text s => .ok (Path.ofString s).name
  | d => .error (.notPathLike d.kindName)

def planFor (number : Nat) (candidate : Datum) : Datum.Found Datum := do
  let path ← candidate.item "path"
  let action ← candidate.itemOr "recommended_action" (.text "split_by_category")
  let reason ← candidate.itemOr "refactoring_reason" (.text "Complex file")
  return .record [("id", .text ("plan_" ++ toString number)), ("source_file", path),
    ("action", action), ("reason", reason), ("confidence", .real 0.85), ("priority", .int 3),
    ("status", .text "ready")]

def plansFor (candidates : List Datum) : Datum.Found (List Datum) :=
  candidates.zipIdx.mapM fun (c, i) => planFor (i + 1) c

/-- The candidates that are asked for: the first of them, and those with a text in their path. -/
def chosen (limit : Option Int) (part : Option String) (candidates : Datum) :
    Datum.Found Datum := do
  let candidates ← match limit with
    | some n => if n = 0 then pure candidates else candidates.first n
    | none => pure candidates
  match part with
  | none => return candidates
  | some p =>
    if p.isEmpty then return candidates
    return .list (← (← candidates.members).filterM fun c => do (← c.item "path").holds p)

def isKey : Datum → Bool
  | .list _ => false
  | .dict _ => false
  | _ => true

def countActions (plans : List Datum) : Datum.Found (List (Datum × Nat)) :=
  plans.foldlM (fun counts plan => do
    let action ← plan.item "action"
    if !isKey action then .error (.notHashable action.kindName)
    if counts.any fun (a, _) => a.same action then
      return counts.map fun (a, n) => if a.same action then (a, n + 1) else (a, n)
    else return counts ++ [(action, 1)]) []

def previewRow (plan : Datum) : Datum.Found (List String) := do
  let name ← fileName (← plan.item "source_file")
  let id ← Table.cellText (← plan.item "id")
  return [id, name, ← Table.cellText (← plan.item "action"), "85%"]

def showPreview (plans : List Datum) : Work Unit := do
  let rows ← Work.lift .datum (plans.mapM previewRow)
  Learning.showTable { Table.make "Plans Preview (First 5)"
    [("ID", "cyan"), ("File", "dim"), ("Action", "yellow"), ("Confidence", "green")] with rows }

def showResults (plans : List Datum) (output : Path) : Work Unit := do
  let counts ← Work.lift .datum (countActions plans)
  Learning.showTable { Table.plain "🎯 Planning Phase Results" Learning.figureColumns with
    rows := ["Total Plans Generated", toString plans.length] ::
      counts.map (fun (a, n) => ["  " ++ a.plain, toString n]) ++
      [["Output Directory", output.text]] }
  if !plans.isEmpty then showPreview (plans.take 5)
  Work.say "\n[bold green]✅ Planning phase complete![/bold green]"
  Work.say "\n[dim]Next steps:[/dim]"
  Work.say "  1. Review plans in output directory"
  Work.say "  2. Preview changes: [cyan]refactor-ai execute --dry-run[/cyan]"
  Work.say "  3. Apply changes: [cyan]refactor-ai execute --yes[/cyan]"

/-- Makes plans from the findings in a directory and keeps them in another. -/
def run (findings output : Path) (limit : Option Int) (part : Option String) (verbose : Bool) :
    Work Unit := do
  Work.present (.panel ("[bold cyan]Phase 2: Smart Planning[/bold cyan]\nTraining Data: " ++
    findings.text ++ "\nOutput: " ++ output.text) "cyan")
  let source := findings.below "candidates.json"
  if !(← Work.pathExists source) then
    Work.say ("[bold red]❌ Training data not found![/bold red]\n" ++
      "[dim]Run Phase 1 first: refactor-ai learn[/dim]")
    return
  let candidates ← Json.loadStrict source
  if verbose then
    let n ← Work.lift .datum candidates.size
    Work.say ("[dim]Loaded " ++ toString n ++ " candidates[/dim]\n")
  let candidates ← Work.lift .datum (chosen limit part candidates)
  Work.makeDirectories output
  let _ ← TestFileStore.openAt findings
  let members ← Work.lift .datum candidates.members
  Work.say "[cyan]Generating refactoring plans...[/cyan]\n"
  let plans ← Work.lift .datum (plansFor members)
  Json.store .exact (.list plans) (output.below "all_plans.json")
  showResults plans output

end SuiteTidy.Practice
