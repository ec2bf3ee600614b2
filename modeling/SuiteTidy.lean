import SuiteTidy.Main
import SuiteTidy.Proofs.Analysis
import SuiteTidy.Proofs.Analysis.Figures
import SuiteTidy.Proofs.Cache.Copies
import SuiteTidy.Proofs.Cache.Isolation
import SuiteTidy.Proofs.Cache.Ledger
import SuiteTidy.Proofs.Cache.Levels
import SuiteTidy.Proofs.Cache.Refinement
import SuiteTidy.Proofs.Cache.Run
import SuiteTidy.Proofs.Command.Practice
import SuiteTidy.Proofs.Decimal.Nearest
import SuiteTidy.Proofs.Decimal.Value
import SuiteTidy.Proofs.Files.Backup
import SuiteTidy.Proofs.Files.Frame
import SuiteTidy.Proofs.Files.Held
import SuiteTidy.Proofs.Files.Listing
import SuiteTidy.Proofs.Files.Rollback
import SuiteTidy.Proofs.Files.Safe
import SuiteTidy.Proofs.Files.Sound
import SuiteTidy.Proofs.Files.Way
import SuiteTidy.Proofs.Imports.Meaning
import SuiteTidy.Proofs.Imports.Merged
import SuiteTidy.Proofs.Imports.Organized
import SuiteTidy.Proofs.Imports.Used
import SuiteTidy.Proofs.Json.Document
import SuiteTidy.Proofs.Json.Interruption
import SuiteTidy.Proofs.Json.Kept
import SuiteTidy.Proofs.Json.Lexeme
import SuiteTidy.Proofs.Json.Refusal
import SuiteTidy.Proofs.Json.RoundTrip
import SuiteTidy.Proofs.Metrics.Points
import SuiteTidy.Proofs.Metrics.Score
import SuiteTidy.Proofs.Migration
import SuiteTidy.Proofs.Moment.Calendar
import SuiteTidy.Proofs.Moment.RoundTrip
import SuiteTidy.Proofs.Number.Order
import SuiteTidy.Proofs.Order.Insertion
import SuiteTidy.Proofs.Pattern.Failure
import SuiteTidy.Proofs.Pattern.Ledger
import SuiteTidy.Proofs.Pattern.Views
import SuiteTidy.Proofs.Plan.Admission
import SuiteTidy.Proofs.Plan.Advice
import SuiteTidy.Proofs.Plan.Check
import SuiteTidy.Proofs.Plan.Collisions
import SuiteTidy.Proofs.Plan.Commutation
import SuiteTidy.Proofs.Plan.DryRun
import SuiteTidy.Proofs.Plan.Effects
import SuiteTidy.Proofs.Plan.Execution
import SuiteTidy.Proofs.Plan.Frame
import SuiteTidy.Proofs.Plan.Outcome
import SuiteTidy.Proofs.Plan.Overwriting
import SuiteTidy.Proofs.Plan.Planning
import SuiteTidy.Proofs.Plan.Targets
import SuiteTidy.Proofs.Scan
import SuiteTidy.Proofs.Scan.Names
import SuiteTidy.Proofs.Scan.Patterns
import SuiteTidy.Proofs.Scan.Root
import SuiteTidy.Proofs.Settings.Check
import SuiteTidy.Proofs.Settings.Update
import SuiteTidy.Proofs.Suite.Constant
import SuiteTidy.Proofs.Suite.Decisions
import SuiteTidy.Proofs.Suite.Declaration
import SuiteTidy.Proofs.Suite.Extent
import SuiteTidy.Proofs.Suite.Hooks
import SuiteTidy.Proofs.Suite.Import
import SuiteTidy.Proofs.Suite.Mock
import SuiteTidy.Proofs.Suite.Nesting
import SuiteTidy.Proofs.Suite.OneLine
import SuiteTidy.Proofs.Suite.Opening
import SuiteTidy.Proofs.Suite.RoundTrip
import SuiteTidy.Proofs.Suite.Scan
import SuiteTidy.Proofs.Suite.Split
import SuiteTidy.Proofs.TestFile.Lists
import SuiteTidy.Proofs.Text.FileSafe
import SuiteTidy.Proofs.Text.Hidden
import SuiteTidy.Proofs.Text.Slug
import SuiteTidy.Proofs.Text.Wrap
import SuiteTidy.Tool
