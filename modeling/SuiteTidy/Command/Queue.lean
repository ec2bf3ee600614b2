import SuiteTidy.Command.Practice
import SuiteTidy.Text.Integer

/-!
The command that carries out plans, after a question unless told otherwise, or only shows what would
be done. The plans are read from a file, so they may have any shape.
-/

set_option autoImplicit false
set_option relaxedAutoImplicit false

namespace SuiteTidy.PlanQueue

def words (plan : Datum) (name : String) : Work String := do
  return (← Work.lift .datum (plan.item name)).plain

def queueRow (plan : Datum) : Datum.Found (List String) := do
  let name ← Practice.fileName (← plan.item "source_file")
  let id ← plan.item "id"
  let action ← plan.item "action"
  let status ← plan.item "status"
  return [← Table.cellText id, name, ← Table.cellText action, ← Table.cellText status]

def showQueue (plans : Datum) (dryRun : Bool) : Work Unit := do
  let mode := if dryRun then "[yellow]DRY RUN[/yellow]" else "[red]LIVE EXECUTION[/red]"
  let n ← Work.lift .datum plans.size
  Work.present (.panel ("[bold cyan]Phase 3: Execution[/bold cyan]\nMode: " ++ mode ++
    "\nPlans to execute: " ++ toString n) (if dryRun then "yellow" else "red"))
  let rows ← Work.lift .datum (do (← plans.members).mapM queueRow)
  Learning.showTable { Table.make "Execution Queue"
    [("ID", "cyan"), ("File", "dim"), ("Action", "yellow"), ("Status", "green")] with rows }

def previewSize : Nat := 5

def previewFiles (plan : Datum) : Work Unit := do
  let operations ← Work.lift .datum (plan.itemOr "operations" (.list []))
  let shown ← Work.lift .datum (do (← operations.first previewSize).members)
  for o in shown do
    let target ← Work.lift .datum (o.itemOr "target_path" (.text "unknown"))
    Work.say ("    - " ++ target.plain)
  let n ← Work.lift .datum operations.size
  if previewSize < n then
    Work.say ("    - ... and " ++ toString (n - previewSize) ++ " more files")

def preview (plan : Datum) : Work Unit := do
  Work.say ("[cyan]Plan: " ++ (← words plan "id") ++ "[/cyan]")
  Work.say ("  Source: " ++ (← words plan "source_file"))
  Work.say ("  Action: " ++ (← words plan "action"))
  Work.say ("  Reason: " ++ (← words plan "reason"))
  match ← Work.lift .datum (plan.item "action") with
  | .text "split_by_category" =>
    Work.say "  [dim]Would create:[/dim]"
    previewFiles plan
  | .text "split_by_concern" =>
    Work.say "  [dim]Would create:[/dim]"
    Work.say "    - file1.part1.spec.ts"
    Work.say "    - file1.part2.spec.ts"
  | .text "extract_shared" =>
    Work.say "  [dim]Would create:[/dim]"
    Work.say "    - test-utils.ts"
  | _ => pure ()
  Work.present (.text none)

def dryRun (plans : Datum) : Work Unit := do
  Work.say "\n[bold yellow]🔍 DRY RUN - No files will be modified[/bold yellow]\n"
  for plan in ← Work.lift .datum plans.members do preview plan
  Work.say "[bold green]✅ Dry run complete![/bold green]"
  Work.say "[dim]Remove --dry-run flag to execute for real[/dim]"

def showResults (results : Datum) : Work Unit := do
  let good ← words results "successful"
  let bad ← Work.lift .datum (results.item "failed")
  let skipped ← words results "skipped"
  Learning.showTable
    { Table.plain "⚡ Execution Results" [("Status", "cyan"), ("Count", "bold")] with
      rows := [["✅ Successful", good], ["❌ Failed", bad.plain], ["⏭️  Skipped", skipped]] }
  if bad.same (.int 0) then
    Work.say "\n[bold green]✅ All plans executed successfully![/bold green]"
  else
    Work.say "\n[bold yellow]⚠️  Some plans failed[/bold yellow]"
    Work.say "[dim]Check logs for details[/dim]"

/-- Carries out one plan and says whether it worked. A plan fails only where its name is asked for
and it has none. -/
def carryOut (verbose : Bool) (plan : Datum) : Work Bool := do
  if !verbose then return true
  match ← Work.attempt (words plan "id") with
  | .ok id =>
    Work.say ("[cyan]Executing: " ++ id ++ "[/cyan]")
    Work.say "  [green]✓ Success[/green]"
    return true
  | .error f =>
    Work.say ("  [red]✗ Error: " ++ f.message ++ "[/red]")
    return false

def execute (plans : Datum) (verbose : Bool) : Work Unit := do
  Work.say "\n[bold red]⚡ EXECUTING PLANS...[/bold red]\n"
  let done ← (← Work.lift .datum plans.members).mapM (carryOut verbose)
  showResults (.record [("successful", .nat (done.countP fun b => b)),
    ("failed", .nat (done.countP fun b => !b)), ("skipped", .int 0)])

def question : String := "\nExecute these plans? [y/n]: "

/-- Asks until the answer is yes or no; `n` bounds the number of answers. -/
def confirmed : Nat → Work Bool
  | 0 => throw .aborted
  | n + 1 => do
    Work.printText question
    match ← Work.readLine? with
    | none => throw .aborted
    | some line =>
      match lowered (trimmed line) with
      | "y" => return true
      | "n" => return false
      | _ =>
        Work.printLine "Please enter Y or N"
        confirmed n

/-- The plans with the given numbers; all of them without numbers. -/
def numbered (numbers : List Int) (plans : Datum) : Datum.Found Datum := do
  if numbers.isEmpty then return plans
  let wanted := (← plans.members).zipIdx.filter fun (_, i) => numbers.contains (i + 1 : Int)
  return .list (wanted.map (·.1))

def numbersIn (s : String) : Datum.Found (List Int) :=
  (s.splitOn ",").mapM fun part =>
    match Text.integer? part with
    | some n => .ok n
    | none => .error (.notInteger (trimmed part))

/-- Carries out the plans in a directory. -/
def run (folder : Path) (preview sure : Bool) (numbers : List Int) (verbose : Bool) :
    Work Unit := do
  let source := folder.below "all_plans.json"
  if !(← Work.pathExists source) then
    Work.say ("[bold red]❌ Plans not found![/bold red]\n" ++
      "[dim]Run Phase 2 first: refactor-ai practice[/dim]")
    return
  let plans ← Work.lift .datum (numbered numbers (← Json.loadStrict source))
  if !plans.truthy then
    Work.say "[yellow]No plans to execute[/yellow]"
    return
  showQueue plans preview
  if preview then dryRun plans
  else if sure then execute plans verbose
  else if ← confirmed ((← get).input.length + 1) then execute plans verbose
  else Work.say "[dim]Execution cancelled[/dim]"

end SuiteTidy.PlanQueue
