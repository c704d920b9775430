import Couchnode.V8.Value
import Couchnode.Lib.Prog
import Couchnode.Native.Exception
import Couchnode.Lib.Blocks
import Couchnode.Native.CommandList
import Couchnode.Native.Options
import Couchnode.Native.ValueFormat
import Couchnode.Native.Command
import Couchnode.Native.Commands
import Couchnode.Native.Operation
import Couchnode.Lib.Run
import Couchnode.Native.Impl
import Couchnode.Proof.Errors
import Couchnode.Proof.Rejection
import Couchnode.Proof.Cookie
import Couchnode.Proof.CommandList
import Couchnode.Proof.Buffers
import Couchnode.Proof.Lowering
import Couchnode.Proof.Handlers
import Couchnode.Proof.Discipline
import Couchnode.Proof.Tidy
import Couchnode.Proof.Accept
import Couchnode.Proof.Deferral
import Couchnode.Proof.Machine
import Couchnode.Proof.Queue
import Couchnode.Proof.Answers
import Couchnode.Proof.FailureReport
import Couchnode.Lib.Fifo
import Couchnode.Proof.Ledger
import Couchnode.Proof.Order
import Couchnode.Proof.Settled
import Couchnode.Proof.Shutdown
import Couchnode.Js.Connection
import Couchnode.Proof.Format
import Couchnode.Proof.Rewrite
import Couchnode.Proof.Calls
import Couchnode.Proof.Durability
import Couchnode.Proof.Keyless
import Couchnode.Proof.Observe
import Couchnode.Proof.Progress
import Couchnode.Proof.Slots
import Couchnode.Proof.Forms
import Couchnode.Proof.Precedence
import Couchnode.Proof.Endings
import Couchnode.Js.ViewQuery
import Couchnode.Lib.Paging
import Couchnode.Spec.Views
import Couchnode.Proof.Paging
import Couchnode.Proof.DurableReport
import Couchnode.Proof.Notes
import Couchnode.Proof.KeyFormats
import Couchnode.Lib.Double
import Couchnode.Native.Control
import Couchnode.Proof.Numbers
import Couchnode.Proof.PageRequests
import Couchnode.Proof.HttpRequest
import Couchnode.Js.Rest
import Couchnode.Proof.Rest
import Couchnode.Js.ViewObjects
import Couchnode.Proof.ViewObjects
import Couchnode.Proof.ViewParameters
import Couchnode.Lib.Grouped
import Couchnode.Lib.LittleEndian
import Couchnode.Proof.Cas
import Couchnode.Proof.Arena
import Couchnode.Proof.Safekeeping
import Couchnode.Proof.Stats
import Couchnode.Lib.Pool
import Couchnode.Native.Traffic
import Couchnode.Proof.Flights
import Couchnode.Proof.Traffic
import Couchnode.Proof.Mixing
import Couchnode.Lib.Refine
import Couchnode.Native.Emitter
import Couchnode.Proof.Emitter
import Couchnode.Proof.Listeners
import Couchnode.Proof.Reuse
import Couchnode.Proof.Reclaim
import Couchnode.Proof.Batch
import Couchnode.Proof.BatchReport
import Couchnode.Proof.Crashes
import Couchnode.Proof.Quiescence
import Couchnode.Js.HttpRequests
import Couchnode.Proof.HttpCalls
import Couchnode.Lib.Versioned
import Couchnode.Proof.Session
