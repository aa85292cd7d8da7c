import Rubric.Main
import Rubric.Record.TypeHint
import Rubric.Proofs.Script.Place
import Rubric.Proofs.Script.Spelling
import Rubric.Proofs.Script.Scan
import Rubric.Proofs.Script.Printer
import Rubric.Proofs.Script.Reading
import Rubric.Proofs.Script.RoundTrip
import Rubric.Proofs.Classification
import Rubric.Proofs.Evaluator.Items
import Rubric.Proofs.Evaluator.Runs
import Rubric.Proofs.Evaluator.Totals
import Rubric.Proofs.Script.KeywordPass
import Rubric.Proofs.Script.Unambiguous
import Rubric.Proofs.Binder
import Rubric.Proofs.Evaluator.Bindings
import Rubric.Proofs.Evaluator.Past
import Rubric.Proofs.Evaluator.Variants
import Rubric.Proofs.Script.PlainScript
import Rubric.Proofs.Script.Check
import Rubric.Proofs.Script.Attributes
import Rubric.Proofs.Script.Effects
import Rubric.Proofs.Script.Points
import Rubric.Proofs.Script.Locals
import Rubric.Proofs.Evaluator.Trace
import Rubric.Proofs.Evaluator.Auxiliary
import Rubric.Proofs.Evaluator.Descriptions
import Rubric.Proofs.Record.KeyPaths
import Rubric.Proofs.Evaluator.Table
import Rubric.Proofs.Evaluator.UpFront
import Rubric.Proofs.Script.Completion
import Rubric.Proofs.Script.EarliestFault
import Rubric.Proofs.Script.LineNumbers
import Rubric.Proofs.Evaluator.ReorderedRuns
import Rubric.Proofs.Script.Concatenation
import Rubric.Proofs.Script.WholeWords
import Rubric.Proofs.Script.BlockRepair
import Rubric.Proofs.Script.SourceLines
import Rubric.Proofs.Value.DataForm
import Rubric.Proofs.Value.Data
import Rubric.Proofs.Distinct
import Rubric.Proofs.Contexts
import Rubric.Proofs.Text.Quoted
import Rubric.Proofs.Value.KeyForm
import Rubric.Proofs.Evaluator.FieldNames
import Rubric.Proofs.Record.TargetLaws
import Rubric.Proofs.Value.MergedKeys
import Rubric.Proofs.Record.ShapePaths
import Rubric.Proofs.Script.Misspelling
import Rubric.Proofs.Script.LineStrings
import Rubric.Proofs.Script.InnermostFaults
import Rubric.Proofs.Script.Unread
import Rubric.Proofs.Binder.Calls
import Rubric.Proofs.Classification.Calls
import Rubric.Proofs.Script.Splitting
import Rubric.Proofs.Script.Aggregates
import Rubric.Proofs.Record.SampleOrder
import Rubric.Proofs.Record.Annotations
import Rubric.Proofs.Profile.Loading
import Rubric.Proofs.Evaluator.StatusText
import Rubric.Proofs.Script.RepairRecord
import Rubric.Proofs.Record.FlatNames
import Rubric.Proofs.Script.Comments
