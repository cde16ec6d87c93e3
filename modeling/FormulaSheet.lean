import FormulaSheet.Cell.Memo
import FormulaSheet.CommandLine.Run
import FormulaSheet.Document.Index
import FormulaSheet.Expr.Rename
import FormulaSheet.Main
import FormulaSheet.Store.Folder
import FormulaSheet.Store.Memory
import FormulaSheet.Proofs.Graph.Order
import FormulaSheet.Proofs.Decimal.Literal
import FormulaSheet.Proofs.Decimal.Whole
import FormulaSheet.Proofs.Expr.Token
import FormulaSheet.Proofs.Expr.Lexing
import FormulaSheet.Proofs.Expr.Grammar
import FormulaSheet.Proofs.Expr.Reading
import FormulaSheet.Proofs.Expr.Soundness
import FormulaSheet.Proofs.Expr.Completeness
import FormulaSheet.Proofs.Expr.Parse
import FormulaSheet.Proofs.Expr.Phrase
import FormulaSheet.Proofs.Expr.Nodes
import FormulaSheet.Proofs.Expr.Splice
import FormulaSheet.Proofs.Expr.Respell
import FormulaSheet.Proofs.Expr.Renamed
import FormulaSheet.Proofs.Expr.Replaced
import FormulaSheet.Proofs.Expr.Offenses
import FormulaSheet.Proofs.Document.Names
import FormulaSheet.Proofs.Document.Pass
import FormulaSheet.Proofs.Document.Interpreter
import FormulaSheet.Proofs.Document.Meaning
import FormulaSheet.Proofs.Document.Valid
import FormulaSheet.Proofs.Document.Rename
import FormulaSheet.Proofs.Document.Run
import FormulaSheet.Proofs.Document.Quiet
import FormulaSheet.Proofs.Document.Fresh
import FormulaSheet.Proofs.Document.Gating
import FormulaSheet.Proofs.Document.References
import FormulaSheet.Proofs.Document.Breaks
import FormulaSheet.Proofs.Document.Counts
import FormulaSheet.Proofs.Document.Agreement
import FormulaSheet.Proofs.Document.Tidy
import FormulaSheet.Proofs.Document.Reload
import FormulaSheet.Proofs.Expr.Handles
import FormulaSheet.Proofs.Expr.TwoRuns
import FormulaSheet.Proofs.Expr.Confinement
import FormulaSheet.Proofs.Expr.Scopes
import FormulaSheet.Proofs.Expr.Errors
import FormulaSheet.Proofs.Document.Defined
import FormulaSheet.Proofs.Document.Notices
import FormulaSheet.Proofs.Json.Outcome
import FormulaSheet.Proofs.Json.Quoted
import FormulaSheet.Proofs.Json.Number
import FormulaSheet.Proofs.Json.Tree
import FormulaSheet.Proofs.Json.Shape
import FormulaSheet.Proofs.Value.Json
import FormulaSheet.Proofs.Value.Normal
import FormulaSheet.Proofs.Record.Reading
import FormulaSheet.Proofs.Record.Codec
import FormulaSheet.Proofs.Store.Agreement
import FormulaSheet.Proofs.Document.Json
import FormulaSheet.Proofs.Graph.History
import FormulaSheet.Proofs.Cell.Mode
import FormulaSheet.Proofs.Expr.Analysis
import FormulaSheet.Proofs.Expr.Needs
import FormulaSheet.Proofs.Expr.Limits
import FormulaSheet.Proofs.Expr.Grouping
import FormulaSheet.Proofs.Expr.Volatile
import FormulaSheet.Proofs.Expr.Height
import FormulaSheet.Proofs.Expr.FreeNames
import FormulaSheet.Proofs.Expr.SingleToken
import FormulaSheet.Proofs.Expr.Quoted
import FormulaSheet.Proofs.Document.ValidNames
import FormulaSheet.Proofs.Document.Stats
import FormulaSheet.Proofs.Decimal.Comparison
import FormulaSheet.Proofs.Decimal.NotANumber
import FormulaSheet.Proofs.Decimal.Numeral
import FormulaSheet.Proofs.Value.Numeric
import FormulaSheet.Proofs.Value.TextOrder
import FormulaSheet.Proofs.Value.Equality
import FormulaSheet.Proofs.Document.InputValue
import FormulaSheet.Proofs.Graph.Edges
import FormulaSheet.Proofs.Cell.Events
import FormulaSheet.Proofs.Calendar.RoundTrip
import FormulaSheet.Proofs.Expr.Positions
import FormulaSheet.Proofs.Document.IndexRun
