import SuiteTidy.Datum.Access
import SuiteTidy.Json.Store
import SuiteTidy.Text.Case
import SuiteTidy.Text.Lines

/-!
Reports on the figures of an analysis, as Markdown, as HTML or as JSON. The figures come from
outside, so any of them may be missing or of the wrong kind; then there is no report.
-/

set_option autoImplicit false
set_option relaxedAutoImplicit false

namespace SuiteTidy.Report

def figure (figures : Datum) (name : String) : Datum.Found Datum := figures.itemOr name (.int 0)

def figureText (figures : Datum) (name : String) : Datum.Found String := do
  return (← figure figures name).plain

/-- The fields of a dictionary with text keys, each key with a capital in front. -/
def levels (d : Datum) : Datum.Found (List (String × String)) :=
  match d with
  | .dict fields => fields.mapM fun (k, v) =>
    match k with
    | .text s => .ok (capitalized s, v.plain)
    | k => .error (.missingAttribute k.kindName "capitalize")
  | d => .error (.missingAttribute d.kindName "items")

def section? (figures : Datum) (name : String) (make : Datum → Datum.Found (List String)) :
    Datum.Found (List String) :=
  match figures.field? name with
  | some d => make d
  | none => .ok []

def seconds (d : Datum) : Except Fault String :=
  match d.number? with
  | some n => (n.fixed 2).mapError .number
  | none => .error (.datum (.textExpected "time" d.kindName))

def markdown (now : Moment) (figures : Datum) : Except Fault (List String) := do
  let look {α : Type} (r : Datum.Found α) : Except Fault α := r.mapError .datum
  let total ← look (figureText figures "total_files")
  let analyzed ← look (figureText figures "analyzed_files")
  let candidates ← look (figureText figures "candidates")
  let time ← seconds (← look (figure figures "execution_time"))
  let complexity ← look <| section? figures "complexity_distribution" fun d => do
    let count (name : String) : Datum.Found String := figureText d name
    return ["## Complexity Distribution", "- **Simple:** " ++ (← count "simple"),
      "- **Medium:** " ++ (← count "medium"), "- **Complex:** " ++ (← count "complex") ++ "\n"]
  let quality ← look <| section? figures "quality_distribution" fun d => do
    return "## Quality Distribution" ::
      (← levels d).map (fun (level, n) => "- **" ++ level ++ ":** " ++ n) ++ [""]
  let advice ← look <| section? figures "recommendations" fun d => do
    return "## Recommendations" :: (← d.members).map (fun r => "- " ++ r.plain) ++ [""]
  return ["# Test Refactoring Analysis Report", "\n**Generated:** " ++ now.toSecond ++ "\n",
    "## Summary", "- **Total Files:** " ++ total, "- **Analyzed:** " ++ analyzed,
    "- **Need Refactoring:** " ++ candidates, "- **Execution Time:** " ++ time ++ "s\n"] ++
    complexity ++ quality ++ advice

def htmlHead : List String :=
  ["<!DOCTYPE html>", "<html>", "<head>",
   "  <title>Test Refactoring Analysis Report</title>", "  <style>",
   "    body \x7b font-family: Arial, sans-serif; margin: 40px; \x7d",
   "    h1 \x7b color: #2c3e50; \x7d",
   "    h2 \x7b color: #34495e; border-bottom: 2px solid #3498db; \x7d",
   "    table \x7b border-collapse: collapse; width: 100%; margin: 20px 0; \x7d",
   "    th, td \x7b border: 1px solid #ddd; padding: 12px; text-align: left; \x7d",
   "    th \x7b background-color: #3498db; color: white; \x7d",
   "    .metric \x7b font-size: 18px; margin: 10px 0; \x7d", "  </style>", "</head>", "<body>"]

def html (now : Moment) (figures : Datum) : Datum.Found (List String) := do
  let metric (label name : String) : Datum.Found String := do
    return "  <div class='metric'>" ++ label ++ ": <strong>" ++ (← figureText figures name) ++
      "</strong></div>"
  let total ← metric "Total Files" "total_files"
  let analyzed ← metric "Analyzed" "analyzed_files"
  let candidates ← metric "Need Refactoring" "candidates"
  let complexity ← section? figures "complexity_distribution" fun d => do
    let row (x : String × String) : String :=
      "    <tr><td>" ++ x.1 ++ "</td><td>" ++ x.2 ++ "</td></tr>"
    return ["  <h2>Complexity Distribution</h2>", "  <table>",
      "    <tr><th>Level</th><th>Count</th></tr>"] ++ (← levels d).map row ++ ["  </table>"]
  return htmlHead ++ ["  <h1>🤖 Test Refactoring Analysis Report</h1>",
    "  <p><strong>Generated:</strong> " ++ now.toSecond ++ "</p>", "  <h2>Summary</h2>",
    total, analyzed, candidates] ++ complexity ++ ["</body>", "</html>"]

def json (now : Moment) (figures : Datum) : Datum.Found Datum := do
  let total ← figure figures "total_files"
  let analyzed ← figure figures "analyzed_files"
  let candidates ← figure figures "candidates"
  let time ← figure figures "execution_time"
  let complexity ← figures.itemOr "complexity_distribution" (.dict [])
  let quality ← figures.itemOr "quality_distribution" (.dict [])
  let advice ← figures.itemOr "recommendations" (.list [])
  return .record [("generated_at", .text now.iso),
    ("summary", .record [("total_files", total), ("analyzed_files", analyzed),
      ("candidates", candidates), ("execution_time", time)]),
    ("distributions", .record [("complexity", complexity), ("quality", quality)]),
    ("recommendations", advice)]

def writeBelow (target : Path) (s : String) : Work Unit := do
  Work.makeDirectories target.parent
  Work.writeText target s

/-- Writes a report in a format to a file and says whether it worked. Of a JSON report that cannot
be written to its end, the beginning is left in the file. -/
def generate (figures : Datum) (target : Path) (format : String) : Work Bool :=
  let attempt : Work Bool := do
    let now ← Work.now
    match format with
    | "markdown" =>
      writeBelow target (unlines (← Work.lift (fun f => f) (markdown now figures)))
      return true
    | "html" =>
      writeBelow target (unlines (← Work.lift .datum (html now figures)))
      return true
    | "json" =>
      let w := Json.render .exact (← Work.lift .datum (json now figures))
      writeBelow target w.text
      return w.fault.isNone
    | _ => return false
  Work.orElse attempt false

end SuiteTidy.Report
