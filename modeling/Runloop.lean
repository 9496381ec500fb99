import Runloop.Clock
import Runloop.CommandLine
import Runloop.CommandLine.Argument
import Runloop.Compilation
import Runloop.Datum
import Runloop.Datum.Layout
import Runloop.Descent
import Runloop.Double
import Runloop.Double.Decimal
import Runloop.Expr
import Runloop.Grammar.Expression
import Runloop.Grammar.Fault
import Runloop.Grammar.Reading
import Runloop.Grammar.Statement
import Runloop.Grammar.Template
import Runloop.Instruction
import Runloop.Instruction.Outline
import Runloop.Machine.Call
import Runloop.Machine.Control
import Runloop.Machine.Eval
import Runloop.Machine.Execute
import Runloop.Machine.Fault
import Runloop.Machine.Report
import Runloop.Machine.Segment
import Runloop.Machine.Work
import Runloop.Main
import Runloop.Number
import Runloop.Run
import Runloop.Schedule
import Runloop.Service
import Runloop.Service.Request
import Runloop.Session
import Runloop.Session.State
import Runloop.Session.View
import Runloop.Settings
import Runloop.Store
import Runloop.Store.Event
import Runloop.Store.Operation
import Runloop.Store.State
import Runloop.Text.Blank
import Runloop.Text.Digit
import Runloop.Text.Lines
import Runloop.Text.Numeral
import Runloop.Text.Printable
import Runloop.Text.Quoted
import Runloop.Token
import Runloop.Token.Lexer
import Runloop.Value
import Runloop.Value.Display
import Runloop.Value.Operator
import Runloop.Proofs.Balance
import Runloop.Proofs.Moving
import Runloop.Proofs.Evaluation
import Runloop.Proofs.Callbacks
import Runloop.Proofs.Lexical
import Runloop.Proofs.LoopOrder
import Runloop.Proofs.Unwinding
import Runloop.Proofs.Code
import Runloop.Proofs.Seat
import Runloop.Proofs.Loading
import Runloop.Proofs.Interleaving
import Runloop.Proofs.Runs
import Runloop.Proofs.Steering
import Runloop.Proofs.Pausing
import Runloop.Proofs.Reloading
import Runloop.Proofs.Ledger
import Runloop.Proofs.Conservation
import Runloop.Proofs.Sight
import Runloop.Proofs.Limits
import Runloop.Proofs.Caps
import Runloop.Proofs.Timeless
import Runloop.Proofs.Ending
import Runloop.Proofs.Containment
import Runloop.Proofs.Stranding
import Runloop.Proofs.Agreement
import Runloop.Proofs.Following
import Runloop.Proofs.Identity
import Runloop.Proofs.Mirroring
import Runloop.Proofs.Finality
import Runloop.Proofs.Halting
import Runloop.Proofs.Refusal
import Runloop.Proofs.Lifecycle
import Runloop.Proofs.Guarding
import Runloop.Proofs.Serving
import Runloop.Proofs.Grounding
import Runloop.Proofs.References
import Runloop.Proofs.Dangling
import Runloop.Proofs.Registry
import Runloop.Proofs.Pieces
import Runloop.Proofs.Scanning
import Runloop.Proofs.Numerals
import Runloop.Proofs.Shapes
import Runloop.Proofs.Readers
import Runloop.Proofs.Statements
import Runloop.Proofs.Segmentation
import Runloop.Proofs.Bodies
import Runloop.Proofs.Faults
import Runloop.Proofs.Rearranging
import Runloop.Proofs.Skipping
import Runloop.Proofs.Quoting
import Runloop.Proofs.Printing
import Runloop.Proofs.Reparsing
import Runloop.Proofs.Handling
import Runloop.Proofs.Remembering
import Runloop.Proofs.Partition
import Runloop.Proofs.Executing
import Runloop.Proofs.Redeclaring
import Runloop.Proofs.Opening
import Runloop.Proofs.Prologue
import Runloop.Proofs.Transplanting
import Runloop.Proofs.Delimiting
import Runloop.Proofs.Returning
import Runloop.Proofs.Caching
import Runloop.Proofs.Interchange
import Runloop.Proofs.Arrows
import Runloop.Proofs.Holes
import Runloop.Proofs.Alarms
import Runloop.Proofs.Atomicity
import Runloop.Proofs.Outlining
import Runloop.Proofs.Converting
import Runloop.Proofs.Displaying
import Runloop.Proofs.Failing
