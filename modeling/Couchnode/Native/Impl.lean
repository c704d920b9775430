import Couchnode.Lib.Run
import Couchnode.Native.Operation

/-!
# `CouchbaseImpl` — the connection and its queue

The connection object as a machine. Everything happens on one thread, but the code it runs
calls the application back in the middle of its work: from the `connect` and `error`
handlers and from the cookies cancelled while the queue is drained. The native frames that
are suspended at such a call are the `control` stack:

* `user` — an application handler is running; it may call any entry point before it returns;
* `drain` — the head of the loop of `runScheduledOperations`;
* `popFront` — the end of that loop's body, after the cancellation of the front command.

An empty stack is the event loop: application code started by other events runs there, and
libcouchbase and libuv deliver theirs. A callback made inside `makeOperation` itself needs no
frame, because what it does next is what the calling application code could do next.

The results of libcouchbase are part of the action (`err`). `log` is a ghost: what happened
to each request, in order; nothing reads it. Code that is never reached again once the
connection is decided is kept (`configCallback`).
-/

set_option autoImplicit false

namespace Couchnode

/-- A command waiting in `pendingCommands`, with the number `makeOperation` gave it. -/
structure Pending where
  id : Nat
  kind : Kind
  cmd : Command kind.Opts

/-- What happened, for the log. -/
inductive Event where
  /-- The `connect` handler was called. -/
  | connect (errObj : Value)
  /-- A request was rejected and reported. -/
  | rejected (r : Report)
  /-- `makeOperation` accepted a request, before or after `shutdown`. -/
  | accepted (id : Nat) (afterShutdown : Bool)
  /-- A command was handed to libcouchbase, which returned `err`. -/
  | executed (id : Nat) (call : LcbCall) (err : Int)
  /-- Its cookie was cancelled; the cookie afterwards. -/
  | cancelled (id : Nat) (err : Int) (cookie : Cookie)

inductive Frame where
  | user
  | drain (globalerr : Int)
  | popFront (globalerr : Int)
  deriving DecidableEq

/-- The idle handle `shutdown` starts. -/
inductive Idle where
  | none | armed | fired
  deriving DecidableEq

structure Impl where
  connected : Bool := false
  isShutdown : Bool := false
  idle : Idle := .none
  configCallback : Bool := true
  pendingCommands : List Pending := []
  control : List Frame := []
  heap : Heap := []
  nextId : Nat := 0
  log : List Event := []

inductive Action where
  | makeOperation (k : Kind) (args : List Value) (err : Int)
  | shutdown
  | onConfig (isNew : Bool)
  | errorCallback (err : Int)
  /-- `libuv_shutdown_cb` -/
  | shutdownCb
  /-- One iteration of the loop of `runScheduledOperations`. -/
  | drain (err : Int)
  /-- The running application handler returns. -/
  | ret

namespace Impl

/-- Is application code running, or may the event loop start some? -/
def jsRuns (s : Impl) : Bool :=
  match s.control with
  | [] => true
  | .user :: _ => true
  | _ => false

/-- Does the handle libcouchbase delivers events for still exist? -/
def alive (s : Impl) : Bool := s.idle ≠ .fired

variable [Runtime]

/-- `onConnect` on an undecided connection: the latch, then the handler. -/
def onConnect (err : Int) (s : Impl) : Impl :=
  { s with
    connected := true
    control := .user :: s.control
    log := s.log ++ [.connect (errorObject err)] }

/-- `onConfig`: the handler runs on top of the loop of `runScheduledOperations`. -/
def onConfig (isNew : Bool) (s : Impl) : Impl :=
  if s.connected then s
  else if !isNew then s
  else onConnect LCB_SUCCESS { s with control := .drain LCB_SUCCESS :: s.control }

/-- `errorCallback`: the connect handler runs on top of the error handler. -/
def errorCallback (err : Int) (s : Impl) : Impl :=
  if s.connected then { s with control := .user :: s.control }
  else onConnect err { s with control := .user :: s.control }

/-- The memory a stack object leaves when it goes out of scope after a rejection. -/
def unwind (st : PState) : Heap := st.bufs.destroy (st.commands.destroy st.heap)

/-- `makeOperation` once the request is accepted: queue a copy, or execute at once. -/
def submit (k : Kind) (cmd : Command k.Opts) (heap : Heap) (err : Int) (s : Impl) :
    Option Impl :=
  let cookie := cmd.createCookie k.cls
  let cmd := { cmd with cookie := some cookie }
  let accepted := s.log ++ [.accepted s.nextId s.isShutdown]
  if !s.connected then
    let (h, cp, orig) := cmd.makePersistent heap
    some { s with
      heap := orig.destroy h, nextId := s.nextId + 1, log := accepted
      pendingCommands := s.pendingCommands ++ [{ id := s.nextId, kind := k, cmd := cp }] }
  else do
    let call ← cmd.execute k.cls heap
    let log := accepted ++ [.executed s.nextId call err]
    some { s with
      heap := cmd.destroy heap, nextId := s.nextId + 1
      log := if err = LCB_SUCCESS then log
        else log ++ [.cancelled s.nextId err (cookie.cancel err cmd.getKeyList)] }

/-- `makeOperation` -/
def makeOperation (k : Kind) (args : List Value) (err : Int) (s : Impl) : Option Impl :=
  match Command.accept k.cls args (Command.start s.heap) with
  | .fault => none
  | .refused st => do
    let r ← bailOut args st.err
    some { s with heap := unwind st, log := s.log ++ [.rejected r] }
  | .done hd st => s.submit k (Command.ofState hd st) st.heap err

/-- `delete p; pendingCommands.pop();` -/
def popCommand (s : Impl) : Impl :=
  match s.pendingCommands with
  | [] => s
  | p :: ps => { s with heap := p.cmd.deleteObject s.heap, pendingCommands := ps }

/-- The front command gets the global error, or is executed with the result `err`: what is
    logged, and the error it ends with. -/
def runFront (globalerr err : Int) (p : Pending) (s : Impl) : Option (List Event × Int) :=
  if globalerr = LCB_SUCCESS then
    (p.cmd.execute p.kind.cls s.heap).map fun call => ([.executed p.id call err], err)
  else some ([], globalerr)

/-- One iteration of the loop of `runScheduledOperations`, or its end; after the loop
    `onConfig` takes the configuration callback away. -/
def drainStep (globalerr err : Int) (rest : List Frame) (s : Impl) : Option Impl :=
  match s.pendingCommands with
  | [] => some { s with control := rest, configCallback := false }
  | p :: _ => do
    let (evs, e) ← s.runFront globalerr err p
    if e = LCB_SUCCESS then some (popCommand { s with log := s.log ++ evs })
    else
      let cookie ← p.cmd.cookie
      some { s with
        control := .user :: .popFront globalerr :: rest
        log := s.log ++ evs ++ [.cancelled p.id e (cookie.cancel e p.cmd.getKeyList)] }

/-- Native code goes on at the top frame. -/
def drain (err : Int) (s : Impl) : Option Impl :=
  match s.control with
  | .drain g :: rest => s.drainStep g err rest
  | .popFront g :: rest => some { popCommand s with control := .drain g :: rest }
  | _ => none

/-- `shutdown`: a fresh handle replaces the one the idle handler will destroy. -/
def shutdown (s : Impl) : Impl :=
  if s.isShutdown then s else { s with isShutdown := true, idle := .armed }

/-- The machine. -/
def step (a : Action) (s : Impl) : Option Impl :=
  match a with
  | .makeOperation k args err => if s.jsRuns then s.makeOperation k args err else none
  | .shutdown => if s.jsRuns then some s.shutdown else none
  | .onConfig isNew =>
    if s.jsRuns && s.alive && s.configCallback then some (s.onConfig isNew) else none
  | .errorCallback err => if s.jsRuns && s.alive then some (s.errorCallback err) else none
  | .shutdownCb =>
    if s.control = [] && s.idle = .armed then some { s with idle := .fired } else none
  | .drain err => s.drain err
  | .ret =>
    match s.control with
    | .user :: rest => some { s with control := rest }
    | _ => none

/-- A run from a new connection. -/
def run (as : List Action) : Option Impl := Run.exec step {} as

end Impl

end Couchnode
