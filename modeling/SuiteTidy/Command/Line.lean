import SuiteTidy.Command.Options
import SuiteTidy.Command.Queue
import SuiteTidy.Files.Glob

/-!
The command line of the tool: its commands with their options, and what each of them does.
-/

set_option autoImplicit false
set_option relaxedAutoImplicit false

namespace SuiteTidy

inductive Command where
  | analyze (root : Path) (workers : Int) (verbose : Bool)
  | learn (root output : Path) (workers : Int) (verbose : Bool)
  | practice (findings output : Path) (limit : Option Int) (part : Option String) (verbose : Bool)
  | execute (folder : Path) (dryRun sure : Bool) (numbers : String) (verbose : Bool)
  | status (output : Path)
  | version
  | help

namespace Command

open Options in
def known : List (String × List Spec) :=
  let root : Spec := ⟨"root", some 'r', .text⟩
  let workers : Spec := ⟨"workers", some 'w', .integer⟩
  let output : Spec := ⟨"output", some 'o', .text⟩
  let verbose : Spec := ⟨"verbose", some 'v', .flag⟩
  [("analyze", [root, workers, verbose]),
   ("learn", [root, output, workers, verbose]),
   ("practice",
     [⟨"training-data", some 't', .text⟩, output, ⟨"max-files", some 'm', .integer⟩,
      ⟨"file", some 'f', .text⟩, verbose]),
   ("execute",
     [⟨"plans", some 'p', .text⟩, root, ⟨"dry-run", some 'd', .flag⟩, ⟨"yes", some 'y', .flag⟩,
      ⟨"plan-numbers", some 'n', .text⟩, verbose]),
   ("status", [output]),
   ("version", [])]

def ofGiven (name : String) (g : Options.Given) : Command :=
  let path (long other : String) : Path := .ofString ((g.value? long).getD other)
  let workers := (g.integer? "workers").getD 4
  let verbose := g.has "verbose"
  match name with
  | "analyze" => .analyze (path "root" "backend/src") workers verbose
  | "learn" =>
    .learn (path "root" "backend/src") (path "output" "output/training_data") workers verbose
  | "practice" =>
    .practice (path "training-data" "output/training_data") (path "output" "output/practice_runs")
      (g.integer? "max-files") (g.value? "file") verbose
  | "execute" =>
    .execute (path "plans" "output/practice_runs") (g.has "dry-run") (g.has "yes")
      ((g.value? "plan-numbers").getD "") verbose
  | "status" => .status (path "output" "output")
  | _ => .version

def readNamed (name : String) (args : List String) : Except UsageFault Command := do
  match known.find? (·.1 == name) with
  | none => .error (.unknownCommand name)
  | some (_, options) =>
    let g ← Options.read (options ++ [Options.help]) {} args
    if g.has "help" then return .help
    g.check
    return ofGiven name g

/-- Reads a command line. Options in front of the command are those of the tool itself. -/
def read : List String → Except UsageFault Command
  | [] => .error .missingCommand
  | word :: rest =>
    if word = "--" then
      match rest with
      | [] => .error .missingCommand
      | name :: args => readNamed name args
    else if Options.isOption word then do
      let _ ← Options.optionWord [Options.help] word {}
      return .help
    else readNamed word rest

def title : String := "[bold cyan]🤖 Test Refactoring AI[/bold cyan]\n"

def banner (more : String) (border : String) : Work Unit :=
  Work.present (.panel (title ++ more) border)

def phaseRow (phase command : String) (made : Option String) : List String :=
  match made with
  | some details => [phase, "✅ Complete", details]
  | none => [phase, "❌ Not started", "Run: refactor-ai " ++ command]

/-- The number of records in a file, with a word for them; nothing if there is no file. -/
def recordsIn (p : Path) (what : String) : Work (Option String) := do
  if ← Work.pathExists p then
    let n ← Work.lift .datum (← Json.loadStrict p).size
    return some (toString n ++ what)
  else return none

/-- The number of runs that have left a record in a directory; nothing if there is none. -/
def runsIn (p : Path) : Work (Option String) := do
  let names := (Glob.namesIn (← Work.files) p).filter (Glob.fits "execution_*.json")
  return if names.isEmpty then none else some (toString names.length ++ " execution(s)")

def showStatus (output : Path) : Work Unit := do
  let learned ← recordsIn (output.below "training_data/all_files.json") " files analyzed"
  let planned ← recordsIn (output.below "practice_runs/all_plans.json") " plans generated"
  let executed ← runsIn (output.below "execution_results")
  Work.present (.table { Table.make "Training Phases Status"
    [("Phase", "cyan"), ("Status", "green"), ("Details", "dim")] with
    rows := [phaseRow "Phase 1: Learning" "learn" learned,
      phaseRow "Phase 2: Planning" "practice" planned,
      phaseRow "Phase 3: Execution" "execute" executed] })

def run : Command → Work Unit
  | analyze root workers verbose => do
    banner "[dim]Quick Analysis Mode[/dim]" "cyan"
    Learning.analyze root workers verbose
  | learn root output workers verbose => do
    banner "[bold yellow]Phase 1: Deep Learning[/bold yellow]" "cyan"
    Learning.learn root output workers verbose
  | practice findings output limit part verbose => do
    banner "[bold yellow]Phase 2: Smart Planning[/bold yellow]" "cyan"
    Practice.run findings output limit part verbose
  | execute folder dryRun sure numbers verbose => do
    if dryRun then banner "[bold yellow]Phase 3: Dry Run[/bold yellow]" "cyan"
    else
      banner ("[bold red]Phase 3: Execution[/bold red]\n" ++
        "[dim]⚠️  This will modify your files![/dim]") "red"
    let wanted ← if numbers.isEmpty then pure [] else Work.lift .datum (PlanQueue.numbersIn numbers)
    PlanQueue.run folder dryRun sure wanted verbose
  | status output => do
    banner "[dim]System Status[/dim]" "cyan"
    showStatus output
  | version =>
    banner ("[bold]Version 2.1.0[/bold]\n\n" ++
      "[dim]Intelligent TypeScript test file refactoring[/dim]\n" ++
      "[dim]Built with ❤️  for developers[/dim]") "cyan"
  | help => return

def runLine (args : List String) : Work Unit := do
  run (← Work.lift .usage (read args))

def mayAsk (args : List String) : Bool :=
  match read args with
  | .ok (.execute _ dryRun sure _ _) => !dryRun && !sure
  | _ => false

/-- The exit code of a run that ended with a fault of the user: two for a command line that cannot
be used, one for a question without an answer. -/
def exitCode? : Fault → Option Nat
  | .usage _ => some 2
  | .aborted => some 1
  | _ => none

end Command
end SuiteTidy
