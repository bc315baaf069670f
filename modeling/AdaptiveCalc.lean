import AdaptiveCalc.Builder
import AdaptiveCalc.Decimal.Basic
import AdaptiveCalc.Decimal.Digits
import AdaptiveCalc.Decimal.Division
import AdaptiveCalc.Decimal.Numeral
import AdaptiveCalc.Decimal.Text
import AdaptiveCalc.Error
import AdaptiveCalc.Evaluation.Basic
import AdaptiveCalc.Evaluation.Event
import AdaptiveCalc.Evaluation.Machine
import AdaptiveCalc.Fast
import AdaptiveCalc.Interpreter
import AdaptiveCalc.Node.Basic
import AdaptiveCalc.Node.Text
import AdaptiveCalc.Operator
import AdaptiveCalc.Program
import AdaptiveCalc.Proofs.Decimal.Number
import AdaptiveCalc.Settings.Basic
import AdaptiveCalc.Settings.Document
import AdaptiveCalc.Settings.Integer
import AdaptiveCalc.Store
import AdaptiveCalc.Text.Blank
import AdaptiveCalc.Text.Printable
import AdaptiveCalc.Text.Quoted
import AdaptiveCalc.Value
import AdaptiveCalc.Proofs.Decimal.Length
import AdaptiveCalc.Proofs.Decimal.Rounding
import AdaptiveCalc.Proofs.Decimal.Quotient
import AdaptiveCalc.Proofs.Evaluation.Rules
import AdaptiveCalc.Proofs.Evaluation.Runs
import AdaptiveCalc.Proofs.Evaluation.Settling
import AdaptiveCalc.Proofs.SiteHistory
import AdaptiveCalc.Proofs.Plain
import AdaptiveCalc.Proofs.Refinement
import AdaptiveCalc.Proofs.Exactness
import AdaptiveCalc.Proofs.Outline
import AdaptiveCalc.Proofs.Rerun
import AdaptiveCalc.Proofs.Observation
import AdaptiveCalc.Proofs.Evaluation.Writes
import AdaptiveCalc.Proofs.Store.Kind
import AdaptiveCalc.Proofs.Store.Table
import AdaptiveCalc.Proofs.Store.History
import AdaptiveCalc.Proofs.Builder.Calls
import AdaptiveCalc.Proofs.Store.Names
import AdaptiveCalc.Proofs.Store.Indexed
import AdaptiveCalc.Proofs.Evaluation.Slots
import AdaptiveCalc.Proofs.Builder.Session
import AdaptiveCalc.Proofs.Builder.Statements
import AdaptiveCalc.Proofs.Evaluation.Order
import AdaptiveCalc.Proofs.Decimal.Division
import AdaptiveCalc.Proofs.Decimal.LongDivision
import AdaptiveCalc.Proofs.Evaluation.Depth
import AdaptiveCalc.Proofs.Evaluation.Steps
import AdaptiveCalc.Proofs.InterpreterHistory
import AdaptiveCalc.Proofs.Evaluation.Locality
import AdaptiveCalc.Proofs.Arithmetic
import AdaptiveCalc.Proofs.Evaluation.ResultKind
import AdaptiveCalc.Proofs.Fast
import AdaptiveCalc.Proofs.Decimal.Grammar
import AdaptiveCalc.Proofs.Builder.Numerals
import AdaptiveCalc.Proofs.Decimal.PlainText
import AdaptiveCalc.Proofs.Decimal.Canonical
import AdaptiveCalc.Proofs.Builder.ReadBack
import AdaptiveCalc.Proofs.Node.Readability
import AdaptiveCalc.Proofs.Evaluation.Stages
import AdaptiveCalc.Proofs.Composition
import AdaptiveCalc.Proofs.Evaluation.Changes
import AdaptiveCalc.Proofs.Evaluation.Logs
import AdaptiveCalc.Proofs.Trace
import AdaptiveCalc.Proofs.Settings.Integers
import AdaptiveCalc.Proofs.Settings.Lines
import AdaptiveCalc.Proofs.Settings.Documents
