import SpendTrace.CommandLine.Arguments
import SpendTrace.CommandLine.Parse
import SpendTrace.CommandLine.Program
import SpendTrace.Decimal.Binary64
import SpendTrace.Decimal.Shortest
import SpendTrace.Json.Error
import SpendTrace.Json.Number
import SpendTrace.Json.Read
import SpendTrace.Json.Token
import SpendTrace.Json.Tree
import SpendTrace.Json.Value
import SpendTrace.Link
import SpendTrace.Main
import SpendTrace.Opcode.Category
import SpendTrace.Opcode.Index
import SpendTrace.Opcode.Table
import SpendTrace.Proofs.Trace.Run
import SpendTrace.Script.Display
import SpendTrace.Script.Document.Element
import SpendTrace.Script.Document.Outcome
import SpendTrace.Script.Document.Snapshot
import SpendTrace.Script.Element
import SpendTrace.Script.Snapshot
import SpendTrace.Service.Endpoint
import SpendTrace.Service.Reply
import SpendTrace.Stream.Client
import SpendTrace.Stream.Connection
import SpendTrace.Stream.Delivery
import SpendTrace.Stream.Handle
import SpendTrace.Target
import SpendTrace.Task
import SpendTrace.Text.Blank
import SpendTrace.Text.Cut
import SpendTrace.Text.Numeral
import SpendTrace.Text.Printable
import SpendTrace.Text.Style
import SpendTrace.Text.Utf8
import SpendTrace.Trace.Coordinator
import SpendTrace.Trace.Navigation
import SpendTrace.Trace.Schedule
import SpendTrace.Trace.State
import SpendTrace.Trace.Transition
import SpendTrace.View.Report
import SpendTrace.View.Session
import SpendTrace.View.Viewer
import SpendTrace.Proofs.Trace.Focus
import SpendTrace.Proofs.Trace.Tracking
import SpendTrace.Proofs.Trace.Supersession
import SpendTrace.Proofs.Trace.Restart
import SpendTrace.Proofs.Trace.Streamed
import SpendTrace.Proofs.Except
import SpendTrace.Proofs.Json.Lexing
import SpendTrace.Proofs.Json.Whole
import SpendTrace.Proofs.Json.Written
import SpendTrace.Proofs.Json.Numbers
import SpendTrace.Proofs.Script.Written
import SpendTrace.Proofs.Json.Reading
import SpendTrace.Proofs.Script.Decoded
import SpendTrace.Proofs.Script.RoundTrip
import SpendTrace.Proofs.Stream.Closing
import SpendTrace.Proofs.Trace.Shape
import SpendTrace.Proofs.Link.Codec
import SpendTrace.Proofs.Json.Canonical
import SpendTrace.Proofs.Script.AllSpellings
import SpendTrace.Proofs.Stream.Turns
import SpendTrace.Proofs.Trace.Tending
import SpendTrace.Proofs.Trace.Paths
import SpendTrace.Proofs.Json.Replacing
import SpendTrace.Proofs.Script.Valued
import SpendTrace.Proofs.Opcode.Consistency
import SpendTrace.Proofs.Stream.Transmission
import SpendTrace.Proofs.Trace.Asking
import SpendTrace.Proofs.View.Walking
import SpendTrace.Proofs.Trace.Undisturbed
import SpendTrace.Proofs.View.Accounting
import SpendTrace.Proofs.Trace.Cancelling
import SpendTrace.Proofs.Trace.Restoring
import SpendTrace.Proofs.Json.BreakingOff
import SpendTrace.Proofs.Json.Beginnings
import SpendTrace.Proofs.Script.Truncated
import SpendTrace.Proofs.Json.Changing
import SpendTrace.Proofs.Json.Members
import SpendTrace.Proofs.Json.Scanning
import SpendTrace.Proofs.Script.Members
import SpendTrace.Proofs.Json.Accepted
import SpendTrace.Proofs.Script.Insisting
import SpendTrace.Proofs.Opcode.Indexing
import SpendTrace.Proofs.Link.Forms
import SpendTrace.Proofs.Link.Query
import SpendTrace.Proofs.Trace.Following
import SpendTrace.Proofs.Script.Making
import SpendTrace.Proofs.Service.Endpoints
import SpendTrace.Proofs.Text.Utf8
import SpendTrace.Proofs.Trace.Classifying
import SpendTrace.Proofs.Trace.Refusing
import SpendTrace.Proofs.Text.Unstyled
import SpendTrace.Proofs.View.Colours
import SpendTrace.Proofs.View.Marking
import SpendTrace.Proofs.CommandLine.Items
import SpendTrace.Proofs.CommandLine.Views
import SpendTrace.Proofs.Service.Environment
import SpendTrace.Proofs.CommandLine.Servers
import SpendTrace.Proofs.Trace.Checked
import SpendTrace.Proofs.Trace.Counted
import SpendTrace.Proofs.Trace.InRange
import SpendTrace.Proofs.View.Courses
import SpendTrace.Proofs.View.Ranges
