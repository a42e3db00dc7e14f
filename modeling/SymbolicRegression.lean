import SymbolicRegression.CommandLine.Arguments
import SymbolicRegression.CommandLine.Evaluate
import SymbolicRegression.CommandLine.Failure
import SymbolicRegression.CommandLine.Folder
import SymbolicRegression.CommandLine.Keyboard
import SymbolicRegression.CommandLine.Loading
import SymbolicRegression.CommandLine.Program
import SymbolicRegression.CommandLine.Solve
import SymbolicRegression.CommandLine.Usage
import SymbolicRegression.CommandLine.Workplace
import SymbolicRegression.Dataset.Basic
import SymbolicRegression.Dataset.Json
import SymbolicRegression.Dataset.Sample
import SymbolicRegression.Decimal.Basic
import SymbolicRegression.Decimal.Shortest
import SymbolicRegression.Decimal.Style
import SymbolicRegression.Expr.Basic
import SymbolicRegression.Expr.Evaluation
import SymbolicRegression.Expr.Json
import SymbolicRegression.Expr.Rendering
import SymbolicRegression.Expr.Validation
import SymbolicRegression.Fitness
import SymbolicRegression.Formula.Basic
import SymbolicRegression.Formula.Json
import SymbolicRegression.Instant.Calendar
import SymbolicRegression.Instant.Printer
import SymbolicRegression.Instant.Reader
import SymbolicRegression.Json.Document
import SymbolicRegression.Json.Fault
import SymbolicRegression.Json.Fields
import SymbolicRegression.Json.Numeral
import SymbolicRegression.Json.Printer
import SymbolicRegression.Json.Reader
import SymbolicRegression.Json.Text
import SymbolicRegression.Json.Value
import SymbolicRegression.Main
import SymbolicRegression.Mutation.Generation
import SymbolicRegression.Mutation.Json
import SymbolicRegression.Mutation.Parameters
import SymbolicRegression.Mutation.Variation
import SymbolicRegression.Operator.Basic
import SymbolicRegression.Operator.Json
import SymbolicRegression.Proofs.Binary64.Arithmetic
import SymbolicRegression.Proofs.Binary64.Magnitude
import SymbolicRegression.Proofs.Binary64.Nearest
import SymbolicRegression.Proofs.Binary64.Packing
import SymbolicRegression.Proofs.Binary64.Quotient
import SymbolicRegression.Proofs.Binary64.Rounding
import SymbolicRegression.Proofs.Binary64.Sign
import SymbolicRegression.Proofs.Binary64.Sum
import SymbolicRegression.Proofs.Binary64.Value
import SymbolicRegression.Proofs.CommandLine.Files
import SymbolicRegression.Proofs.CommandLine.Keyboard
import SymbolicRegression.Proofs.CommandLine.Messages
import SymbolicRegression.Proofs.CommandLine.Saving
import SymbolicRegression.Proofs.CommandLine.Solve
import SymbolicRegression.Proofs.CommandLine.Start
import SymbolicRegression.Proofs.CommandLine.Text
import SymbolicRegression.Proofs.Dataset.Alike
import SymbolicRegression.Proofs.Dataset.Build
import SymbolicRegression.Proofs.Dataset.Inputs
import SymbolicRegression.Proofs.Dataset.Json
import SymbolicRegression.Proofs.Dataset.Trees
import SymbolicRegression.Proofs.Decimal.Nearest
import SymbolicRegression.Proofs.Decimal.Plain
import SymbolicRegression.Proofs.Decimal.Shortest
import SymbolicRegression.Proofs.Decimal.Style
import SymbolicRegression.Proofs.Expr.Divisors
import SymbolicRegression.Proofs.Expr.Evaluation
import SymbolicRegression.Proofs.Expr.Faults
import SymbolicRegression.Proofs.Expr.Fields
import SymbolicRegression.Proofs.Expr.Fitness
import SymbolicRegression.Proofs.Expr.Guard
import SymbolicRegression.Proofs.Expr.Json
import SymbolicRegression.Proofs.Expr.Layout
import SymbolicRegression.Proofs.Expr.Literals
import SymbolicRegression.Proofs.Expr.Reader
import SymbolicRegression.Proofs.Expr.Reading
import SymbolicRegression.Proofs.Expr.Renaming
import SymbolicRegression.Proofs.Expr.Rendering
import SymbolicRegression.Proofs.Expr.Residuals
import SymbolicRegression.Proofs.Expr.Shape
import SymbolicRegression.Proofs.Expr.Trees
import SymbolicRegression.Proofs.Json.Digits
import SymbolicRegression.Proofs.Json.Document
import SymbolicRegression.Proofs.Json.Fields
import SymbolicRegression.Proofs.Json.Gathering
import SymbolicRegression.Proofs.Json.Grammar
import SymbolicRegression.Proofs.Json.Holding
import SymbolicRegression.Proofs.Json.Nesting
import SymbolicRegression.Proofs.Json.Number
import SymbolicRegression.Proofs.Json.Numeral
import SymbolicRegression.Proofs.Json.Overrides
import SymbolicRegression.Proofs.Json.Quoting
import SymbolicRegression.Proofs.Json.Reading
import SymbolicRegression.Proofs.Json.Skipping
import SymbolicRegression.Proofs.Json.Spelling
import SymbolicRegression.Proofs.Json.Text
import SymbolicRegression.Proofs.Json.Trees
import SymbolicRegression.Proofs.Json.Walking
import SymbolicRegression.Proofs.Mutation.Closure
import SymbolicRegression.Proofs.Mutation.DepthCap
import SymbolicRegression.Proofs.Mutation.Growth
import SymbolicRegression.Proofs.Mutation.Idle
import SymbolicRegression.Proofs.Mutation.Literals
import SymbolicRegression.Proofs.Mutation.Overrides
import SymbolicRegression.Proofs.Mutation.Parameters
import SymbolicRegression.Proofs.Mutation.Reach
import SymbolicRegression.Proofs.Mutation.Renaming
import SymbolicRegression.Proofs.Mutation.Shape
import SymbolicRegression.Proofs.Random.Constant
import SymbolicRegression.Proofs.Random.Never
import SymbolicRegression.Proofs.Random.Observation
import SymbolicRegression.Proofs.Random.Outcome
import SymbolicRegression.Proofs.Random.Possible
import SymbolicRegression.Proofs.Random.Unit
import SymbolicRegression.Proofs.Record.Building
import SymbolicRegression.Proofs.Record.Trees
import SymbolicRegression.Proofs.Record.Writing
import SymbolicRegression.Proofs.Report
import SymbolicRegression.Proofs.SavedFormula.Continuation
import SymbolicRegression.Proofs.SavedFormula.Holding
import SymbolicRegression.Proofs.SavedFormula.Json
import SymbolicRegression.Proofs.SavedFormula.RoundTrip
import SymbolicRegression.Proofs.Search.Descent
import SymbolicRegression.Proofs.Search.Ending
import SymbolicRegression.Proofs.Search.Guard
import SymbolicRegression.Proofs.Search.Idle
import SymbolicRegression.Proofs.Search.Invariant
import SymbolicRegression.Proofs.Search.Overrides
import SymbolicRegression.Proofs.Search.Prediction
import SymbolicRegression.Proofs.Search.Ranges
import SymbolicRegression.Proofs.Search.Renaming
import SymbolicRegression.Proofs.Search.Requests
import SymbolicRegression.Proofs.Search.Run
import SymbolicRegression.Proofs.Text.ByteOrder
import SymbolicRegression.Random.Draw
import SymbolicRegression.Random.Pcg
import SymbolicRegression.Random.Source
import SymbolicRegression.Record.Basic
import SymbolicRegression.Record.Json
import SymbolicRegression.Report
import SymbolicRegression.SavedFormula
import SymbolicRegression.Search.Candidate
import SymbolicRegression.Search.Climb
import SymbolicRegression.Search.Config
import SymbolicRegression.Search.Json
import SymbolicRegression.Search.Run
import SymbolicRegression.Search.StopSource
import SymbolicRegression.Text.Blank
import SymbolicRegression.Text.Hidden
import SymbolicRegression.Text.HiddenRanges
