import SuiteTidy.Workspace

/-!
Messages on the console: a banner, news good and bad, and a dictionary as a table.
-/

set_option autoImplicit false
set_option relaxedAutoImplicit false

namespace SuiteTidy.Message

/-- A framed title, with a line below it unless that is empty. -/
def banner (title subtitle : Datum) : Work Unit :=
  Work.present (.panel ("[bold cyan]" ++ title.plain ++ "[/bold cyan]" ++
    (if subtitle.truthy then "\n[dim]" ++ subtitle.plain ++ "[/dim]" else "")) "cyan")

def success (words : Datum) : Work Unit :=
  Work.say ("[bold green]✅ " ++ words.plain ++ "[/bold green]")

def error (words : Datum) : Work Unit := Work.say ("[bold red]❌ " ++ words.plain ++ "[/bold red]")

def warning (words : Datum) : Work Unit :=
  Work.say ("[bold yellow]⚠️  " ++ words.plain ++ "[/bold yellow]")

def info (words : Datum) : Work Unit := Work.say ("[cyan]ℹ️  " ++ words.plain ++ "[/cyan]")

def table (title : String) (data : Datum) (left right : String) : Work Unit := do
  match data with
  | .dict fields =>
    let rows ← fields.mapM fun (k, v) => do
      return [← Work.lift .datum (Table.cellText k), v.plain]
    let t : Table := .make title [(left, "cyan"), (right, "bold green")]
    Work.say "\n"
    Work.present (.table { t with rows })
  | d => throw (.datum (.missingAttribute d.kindName "items"))

end SuiteTidy.Message
