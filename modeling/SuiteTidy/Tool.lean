import SuiteTidy.Cache.Store
import SuiteTidy.Check.File
import SuiteTidy.Check.Plan
import SuiteTidy.Command.Line
import SuiteTidy.Console.Message
import SuiteTidy.Datum.Arithmetic
import SuiteTidy.Files.Layout
import SuiteTidy.Files.Packed
import SuiteTidy.Files.Safe
import SuiteTidy.Imports.Organized
import SuiteTidy.Metrics.Analyzer
import SuiteTidy.Metrics.Smell
import SuiteTidy.Migration
import SuiteTidy.Moment.Reading
import SuiteTidy.Package
import SuiteTidy.Pattern.Store
import SuiteTidy.Plan.Execution
import SuiteTidy.Plan.Planning
import SuiteTidy.Problem
import SuiteTidy.Report
import SuiteTidy.Settings.Basic
import SuiteTidy.Settings.Check
import SuiteTidy.Suite.Draft
import SuiteTidy.Suite.Source
import SuiteTidy.Text.Comment
import SuiteTidy.Text.Naming
import SuiteTidy.Text.Wrap
import SuiteTidy.Workload

/-!
All that the tool does, for programs that are built on it.
-/
