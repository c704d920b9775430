import Couchnode.Lib.Assoc
import Couchnode.Native.Impl

/-!
# The event emitter

`CouchbaseImpl::on` and the handlers it keeps in `events`. `Impl` lets some application handler run
whenever there may be one; here the handler is looked up where the code looks it up, and none runs
where none was registered. In `errorCallback` that is after the `connect` handler has returned, so
what is left to do is a native frame of its own, `raise`.

An event's name is a `std::string`, made of the characters `String::AsciiValue` has for the value
given. Like `Impl.log`, `raised` is a ghost: the events raised so far, each with the handler that
was called, if one was.
-/

set_option autoImplicit false

namespace Couchnode

/-- What V8 makes of a value given as the name of an event. -/
class EventNames where
  /-- The characters of `String::AsciiValue`. None of them is NUL: `std::string(*func)`, which is the
      name `events` has, would end there. -/
  asciiValue : Value → List UInt8

inductive EventFrame where
  | native (f : Frame)
  /-- `errorCallback`, from its lookup of the `error` handler on. -/
  | raise (err : Int) (errinfo : Option String)
  deriving DecidableEq

/-- An event that was raised. -/
structure Raised where
  event : List UInt8
  handler : Option Value
  arg : Value

/-- The connection with its handlers. The frames are in `control`; those of `impl` are not used. -/
structure Emitter where
  impl : Impl := {}
  control : List EventFrame := []
  events : List (List UInt8 × Value) := []
  raised : List Raised := []

inductive EmitterAction where
  | on (args : List Value)
  | makeOperation (k : Kind) (args : List Value) (err : Int)
  | shutdown
  | onConfig (isNew : Bool)
  | errorCallback (err : Int) (errinfo : Option String)
  | shutdownCb
  | drain (err : Int)
  /-- `errorCallback` goes on. -/
  | raise
  | ret

namespace Emitter

def connectName : List UInt8 := utf8 "connect"

def errorName : List UInt8 := utf8 "error"

/-- As in `Impl`. -/
def jsRuns (s : Emitter) : Bool :=
  match s.control with
  | [] => true
  | .native .user :: _ => true
  | _ => false

variable [Runtime]

/-- What the `error` handler is given. -/
def errorInfo (err : Int) (errinfo : Option String) : Value :=
  let ex := CBExc.eLcb err {}
  match errinfo with
  | some info => (ex.setMessage info none).asValue
  | none => ex.asValue

section On

variable [EventNames]

/-- `on`: the handlers afterwards, or what it throws. -/
def on (args : List Value) (events : List (List UInt8 × Value)) :
    Except CBExc (List (List UInt8 × Value)) :=
  match args with
  | [cbName, cbTarget] =>
    let func := EventNames.asciiValue cbName
    if func.length = 0 then .error (CBExc.eArguments "Bad callback parameter" (some cbName) {})
    else if !cbTarget.isFunction then
      .error (CBExc.eArguments "Parameter is not a function" (some cbTarget) {})
    else .ok ((func, cbTarget) :: events.filter fun e => e.1 ≠ func)
  | _ => .error (CBExc.eArguments "Need event and callback" none {})

end On

/-- Look the handler of an event up and call it. -/
def call (event : List UInt8) (arg : Value) (s : Emitter) : Emitter :=
  let handler := s.events.lookup event
  { s with
    control := if handler.isSome then .native .user :: s.control else s.control
    raised := s.raised ++ [{ event := event, handler := handler, arg := arg }] }

/-- `onConnect` on an undecided connection. -/
def onConnect (err : Int) (s : Emitter) : Emitter :=
  let impl := { s.impl with
    connected := true, log := s.impl.log ++ [.connect (errorObject err)] }
  { s with impl := impl }.call connectName (errorObject err)

def onConfig (isNew : Bool) (s : Emitter) : Emitter :=
  if s.impl.connected then s
  else if !isNew then s
  else onConnect LCB_SUCCESS { s with control := .native (.drain LCB_SUCCESS) :: s.control }

def errorCallback (err : Int) (errinfo : Option String) (s : Emitter) : Emitter :=
  let s := { s with control := .raise err errinfo :: s.control }
  if s.impl.connected then s else onConnect err s

/-- Native code goes on at the top frame, and looks at no other. -/
def drain (err : Int) (s : Emitter) : Option Emitter :=
  match s.control with
  | .native f :: rest =>
    (Impl.drain err { s.impl with control := [f] }).map fun impl =>
      { s with impl := impl, control := impl.control.map .native ++ rest }
  | _ => none

variable [EventNames]

/-- The machine. -/
def step (a : EmitterAction) (s : Emitter) : Option Emitter :=
  match a with
  | .on args =>
    if s.jsRuns then
      match on args s.events with
      | .ok events => some { s with events := events }
      | .error _ => some s
    else none
  | .makeOperation k args err =>
    if s.jsRuns then (s.impl.makeOperation k args err).map fun impl => { s with impl := impl }
    else none
  | .shutdown => if s.jsRuns then some { s with impl := s.impl.shutdown } else none
  | .onConfig isNew =>
    if s.jsRuns && s.impl.alive && s.impl.configCallback then some (s.onConfig isNew) else none
  | .errorCallback err errinfo =>
    if s.jsRuns && s.impl.alive then some (s.errorCallback err errinfo) else none
  | .shutdownCb =>
    if s.control = [] && s.impl.idle = .armed then
      some { s with impl := { s.impl with idle := .fired } }
    else none
  | .drain err => s.drain err
  | .raise =>
    match s.control with
    | .raise err errinfo :: rest =>
      some ({ s with control := rest }.call errorName (errorInfo err errinfo))
    | _ => none
  | .ret =>
    match s.control with
    | .native .user :: rest => some { s with control := rest }
    | _ => none

/-- A run from a new connection without handlers. -/
def run (as : List EmitterAction) : Option Emitter := Run.exec step {} as

end Emitter

end Couchnode
