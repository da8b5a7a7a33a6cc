import ReactiveScript.Decimal.Layout
import ReactiveScript.Decimal.Shortest
import ReactiveScript.Environment.Basic
import ReactiveScript.Environment.Error
import ReactiveScript.Environment.InPlace
import ReactiveScript.Eval.Basic
import ReactiveScript.Eval.Call
import ReactiveScript.Eval.Evaluator
import ReactiveScript.Eval.Expression
import ReactiveScript.Eval.Fuel
import ReactiveScript.Eval.Loop
import ReactiveScript.Eval.Module
import ReactiveScript.Eval.Outcome
import ReactiveScript.Eval.Statement
import ReactiveScript.Eval.Variable
import ReactiveScript.Event
import ReactiveScript.Failure
import ReactiveScript.Host.Basic
import ReactiveScript.Host.Console
import ReactiveScript.Host.Globals
import ReactiveScript.Host.Json
import ReactiveScript.Host.Sample
import ReactiveScript.Interpreter
import ReactiveScript.Json.Basic
import ReactiveScript.Json.Read
import ReactiveScript.Json.Write
import ReactiveScript.Number.Basic
import ReactiveScript.Number.Format
import ReactiveScript.Number.Parse
import ReactiveScript.Number.Ratio
import ReactiveScript.Number.Rounding
import ReactiveScript.Number.Word
import ReactiveScript.OrderedMap
import ReactiveScript.Program.Mode
import ReactiveScript.Program.Operator
import ReactiveScript.Program.Span
import ReactiveScript.Program.Tree
import ReactiveScript.Proofs.Chain
import ReactiveScript.Proofs.Congruence.Basic
import ReactiveScript.Proofs.Congruence.Expression
import ReactiveScript.Proofs.Congruence.Statement
import ReactiveScript.Proofs.Congruence.Program
import ReactiveScript.Proofs.Footprint
import ReactiveScript.Proofs.Frames
import ReactiveScript.Proofs.LexicalScoping
import ReactiveScript.Proofs.Preservation
import ReactiveScript.Proofs.ScopeDiscipline
import ReactiveScript.Proofs.Scopes
import ReactiveScript.Schedule.Drain
import ReactiveScript.Schedule.Queue
import ReactiveScript.Schedule.Script
import ReactiveScript.Store
import ReactiveScript.Text.Blank
import ReactiveScript.Text.Bytes
import ReactiveScript.Text.Quoted
import ReactiveScript.Text.Unprintable
import ReactiveScript.Value.Basic
import ReactiveScript.Value.Equality
import ReactiveScript.Value.Operator
import ReactiveScript.Value.Property
import ReactiveScript.Value.Text
import ReactiveScript.Proofs.Dispatch
import ReactiveScript.Proofs.Journal.Basic
import ReactiveScript.Proofs.Journal.Expression
import ReactiveScript.Proofs.Journal.Statement
import ReactiveScript.Proofs.Journal.Blank
import ReactiveScript.Proofs.Journal.Program
import ReactiveScript.Proofs.TaskOrder
import ReactiveScript.Proofs.Tracing
import ReactiveScript.Proofs.Reset
import ReactiveScript.Proofs.Signals
import ReactiveScript.Proofs.SoundValues
import ReactiveScript.Proofs.Agreement.Basic
import ReactiveScript.Proofs.Agreement.Expression
import ReactiveScript.Proofs.Agreement.Statement
import ReactiveScript.Proofs.Interruption
import ReactiveScript.Proofs.StandardHost
import ReactiveScript.Proofs.StraySignals
import ReactiveScript.Proofs.MapKeys
import ReactiveScript.Proofs.Steps
import ReactiveScript.Proofs.SameValue
import ReactiveScript.Proofs.WellFormed
import ReactiveScript.Proofs.ReadBack
import ReactiveScript.Proofs.Lifetime
import ReactiveScript.Proofs.Lookups
import ReactiveScript.Proofs.ChangeRecords
import ReactiveScript.Proofs.Placement
import ReactiveScript.Proofs.Location
import ReactiveScript.Proofs.Refusals
import ReactiveScript.Session
import ReactiveScript.Proofs.Guards
import ReactiveScript.Proofs.CallDepth
import ReactiveScript.Proofs.Outputs
import ReactiveScript.Proofs.EventLogs
import ReactiveScript.Proofs.MoreFuel
import ReactiveScript.Proofs.Pieces
import ReactiveScript.Proofs.Privacy.Basic
import ReactiveScript.Proofs.Privacy.Rules
import ReactiveScript.Proofs.Exports
import ReactiveScript.Proofs.Integers
import ReactiveScript.Proofs.Nesting
import ReactiveScript.Proofs.Json.Token
import ReactiveScript.Proofs.Json.Tree
import ReactiveScript.Proofs.Copies
import ReactiveScript.Proofs.Json.RoundTrip
import ReactiveScript.Proofs.Results
import ReactiveScript.Proofs.TryStatements
import ReactiveScript.Proofs.Returns
import ReactiveScript.Proofs.FirstMatch
import ReactiveScript.Proofs.Padding
import ReactiveScript.Proofs.ForLoops
import ReactiveScript.Proofs.CompoundAssignment
import ReactiveScript.Proofs.CallFrames
import ReactiveScript.Proofs.FunctionTable
import ReactiveScript.Proofs.Recursion
import ReactiveScript.Proofs.Iteration
import ReactiveScript.Proofs.Switches
import ReactiveScript.Proofs.Equalities
import ReactiveScript.Proofs.IndexWords
import ReactiveScript.Proofs.ElementAccess
import ReactiveScript.Proofs.Ratios
import ReactiveScript.Proofs.Rounding
import ReactiveScript.Proofs.NumberText
import ReactiveScript.Proofs.NumericKeys
import ReactiveScript.Proofs.CodePoints
import ReactiveScript.Proofs.ExactArithmetic
import ReactiveScript.Proofs.Words
import ReactiveScript.Proofs.Nearest
import ReactiveScript.Proofs.Literals
import ReactiveScript.Proofs.NumberGrammar
import ReactiveScript.Proofs.NumberRoundTrip
import ReactiveScript.Proofs.Registrations
import ReactiveScript.Proofs.Declarations
