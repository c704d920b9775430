import Couchnode.Native.Impl

/-!
# The connection and libcouchbase

`Impl` ends where a command is handed to libcouchbase. Here the calls it took are kept, each
with the cookie it was given, until they have been answered: `flights` are the calls that still
have answers to come, `landed` those that have had their last one. An `Answer` is one call of one of
the callbacks of `cookie.cc`, and what it does to a cookie is what that callback does.

libcouchbase is not ours. What it may do is `Flight.expects`: it answers each key-value command
once, by its key; an observe call any number of times for each key, and then without a key; a
stats call any number of times, and then without a server; an HTTP request once. Nothing is said
of the order, so answers come between any two steps of the connection that leave application
code, or the event loop, running, as long as the handle exists: one that was destroyed answers no
call any more.

`args` and `heard` of a flight and `requests` are ghosts: what was asked, what was answered, and
the accepted requests by their number.
-/

set_option autoImplicit false

namespace Couchnode

/-- One call of a response callback. -/
inductive Answer where
  /-- `get_callback`, `store_callback`, and so on -/
  | keyed (r : Cookie.Response)
  /-- `observe_callback` -/
  | observed (r : Int × ObserveResp)
  /-- `stats_callback` -/
  | stat (r : Int × Option StatResp)
  /-- `http_complete_callback` -/
  | http (err : Int) (resp : HttpResp)

/-- A call libcouchbase took, with its cookie; `owed` are the keys it has yet to answer. -/
structure Flight where
  id : Nat
  kind : Kind
  args : List Value
  call : LcbCall
  cookie : Cookie
  owed : List (List UInt8)
  heard : List Answer := []

namespace Answer

/-- Is it an answer to a call of this class? -/
def suits : Answer → CookieKind → Bool
  | keyed _, .plain => true
  | observed _, .observe => true
  | stat _, .stats => true
  | http _ _, .http => true
  | _, _ => false

/-- The keys owed after the answer. -/
def pay (owed : List (List UInt8)) : Answer → List (List UInt8)
  | keyed r => owed.erase r.key
  | _ => owed

/-- Is it the last answer to a call that owes these keys? -/
def isLast (owed : List (List UInt8)) : Answer → Bool
  | keyed r => owed.erase r.key = []
  | observed r => r.2.key.isNone
  | stat r =>
    match r.2 with
    | some resp => resp.serverEndpoint.isNone
    | none => true
  | http _ _ => true

variable [Runtime]

/-- What the callback does with the cookie. -/
def deliver : Answer → Cookie → Option Cookie
  | keyed r, c => some (c.receive r)
  | observed r, c => c.observeUpdate r
  | stat r, c => some (c.statsUpdate r)
  | http err resp, c => some (c.httpUpdate err (some resp))

end Answer

namespace Flight

/-- The call of a command, just taken. -/
def ofCommand {k : Kind} (id : Nat) (cmd : Command k.Opts) (call : LcbCall) (cookie : Cookie) :
    Flight :=
  { id := id, kind := k, args := cmd.apiArgs, call := call, cookie := cookie
    owed := call.cmds.filterMap (·.key) }

variable [Runtime]

/-- May libcouchbase answer the call like this? -/
def expects (a : Answer) (f : Flight) : Bool :=
  a.suits f.kind.cls.cookieKind &&
    match a with
    | .keyed r => f.owed.contains r.key
    | .observed r =>
      match r.2.key with
      | some key => (f.call.cmds.map (·.key)).contains (some key)
      | none => true
    | _ => true

/-- The call after an answer. -/
def answer (a : Answer) (f : Flight) : Option Flight :=
  if f.expects a then
    (a.deliver f.cookie).map fun cookie =>
      { f with cookie := cookie, owed := a.pay f.owed, heard := f.heard ++ [a] }
  else none

end Flight

/-- The call a step hands to libcouchbase, when libcouchbase takes it. -/
def Impl.handover [Runtime] (a : Action) (s : Impl) : Option Flight :=
  match a with
  | .makeOperation k args err =>
    match Command.accept k.cls args (Command.start s.heap) with
    | .done hd st =>
      if s.connected && err = LCB_SUCCESS then
        let cmd := Command.ofState hd st
        let cookie := cmd.createCookie k.cls
        let cmd := { cmd with cookie := some cookie }
        (cmd.execute k.cls st.heap).map fun call => .ofCommand s.nextId cmd call cookie
      else none
    | _ => none
  | .drain err =>
    match s.control, s.pendingCommands with
    | .drain g :: _, p :: _ =>
      if g = LCB_SUCCESS && err = LCB_SUCCESS then do
        let call ← p.cmd.execute p.kind.cls s.heap
        let cookie ← p.cmd.cookie
        some (.ofCommand p.id p.cmd call cookie)
      else none
    | _, _ => none
  | _ => none

structure Traffic where
  impl : Impl := {}
  flights : List Flight := []
  landed : List Flight := []
  requests : List (Kind × List Value) := []

inductive TrafficAction where
  | impl (a : Action)
  /-- libcouchbase answers call number `id`. -/
  | answer (id : Nat) (a : Answer)

namespace Traffic

/-- The request a step accepted. -/
def accepted (a : Action) (s s' : Impl) : List (Kind × List Value) :=
  match a with
  | .makeOperation k args _ => if s.nextId < s'.nextId then [(k, args)] else []
  | _ => []

variable [Runtime]

/-- The call goes on, or is over. -/
def settle (a : Answer) (f g : Flight) (t : Traffic) : Traffic :=
  if a.isLast f.owed then
    { t with
      flights := t.flights.filter fun f' => f'.id ≠ f.id
      landed := t.landed ++ [g] }
  else { t with flights := t.flights.map fun f' => if f'.id = f.id then g else f' }

def step (a : TrafficAction) (t : Traffic) : Option Traffic :=
  match a with
  | .impl a => do
    let s ← Impl.step a t.impl
    some { t with
      impl := s
      flights := t.flights ++ (t.impl.handover a).toList
      requests := t.requests ++ accepted a t.impl s }
  | .answer id a =>
    if t.impl.jsRuns && t.impl.alive then do
      let f ← t.flights.find? fun f => f.id = id
      let g ← f.answer a
      some (t.settle a f g)
    else none

/-- A run from a new connection. -/
def run (as : List TrafficAction) : Option Traffic := Run.exec step {} as

end Traffic

end Couchnode
