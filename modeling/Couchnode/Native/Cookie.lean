import Couchnode.Native.ValueFormat

/-!
# `Cookie` — from responses to callbacks

The cookie of a request counts down its keys and turns responses into calls of the
application callback: one call per response in single mode, one call for all of them in
spooled mode. It deletes itself when the count is used up.

Beside its members a `Cookie` here carries what happened to it: the callback invocations
made (`calls`), how often it was deleted, and whether a member was touched after that
(`usedAfterDelete`). `touch` stands wherever the source reads or writes a member, so a
dangling access is recorded and not silently computed. `remaining` is an unsigned counter:
it wraps below zero.
-/

set_option autoImplicit false

namespace Couchnode

inductive CallbackMode where
  | single | spooled
  deriving DecidableEq

/-- The cookie classes. -/
inductive CookieKind where
  | plain | observe | stats | http
  deriving DecidableEq

/-- One `node::MakeCallback`. -/
structure Invocation where
  fn : Value
  args : List Value

section ResponseInfo

variable [Runtime]

/-- The error object of a failed `lcb_error_t`. -/
def lcbError (err : Int) : Value := (CBExc.eLcb err {}).asValue

/-- `errObj` for a status: `undefined` for success. -/
def errorObject (status : Int) : Value :=
  if status ≠ LCB_SUCCESS then lcbError status else .undefined

/-- The members of the plain responses, `key` being `NULL` or `nkey` bytes. -/
inductive Resp where
  | get (flags cas : Nat) (bytes : List UInt8)
  | store (cas : Nat)
  | arithmetic (cas value : Nat)
  | touch (cas : Nat)
  | unlock
  | remove (cas : Nat)
  | durability (cas : Nat) (err : Int) (existsMaster persistedMaster : Bool)
      (npersisted nreplicated : Nat)

/-- The members of an observe response: how one node has one key. -/
structure ObserveResp where
  key : Option (List UInt8) := none
  status : Nat := 0
  cas : Nat := 0
  fromMaster : Bool := false
  ttp : Nat := 0
  ttr : Nat := 0

/-- The members of a stats response: one statistic of one server, without an endpoint at the
    end of a request. -/
structure StatResp where
  serverEndpoint : Option (List UInt8) := none
  key : List UInt8 := []
  bytes : List UInt8 := []

/-- The members of an HTTP response. -/
structure HttpResp where
  status : Int
  bytes : List UInt8 := []
  path : Option (List UInt8) := none

structure ResponseInfo where
  status : Int
  payload : Option Props
  key : Option (List UInt8)
  keyObj : Option Value := none

namespace ResponseInfo

def hasKey (info : ResponseInfo) : Bool :=
  match info.key with
  | some bs => bs ≠ []
  | none => false

def getKey (info : ResponseInfo) : Value :=
  match info.keyObj with
  | some v => v
  | none => .string (Runtime.stringNew (info.key.getD []))

/-- The property a result is stored under. -/
def keyName (info : ResponseInfo) : String := info.getKey.toName

def number (n : Nat) : Value := .number (.fin n)

/-- The fields the constructors set on a successful response; `keyOption` is the format
    asked for the response's key, if any. -/
def fields (keyOption : Option Value) : Resp → Props
  | .get flags cas bytes =>
    let effectiveFlags := match keyOption with
      | some v => v.uint32Value
      | none => flags
    [(NameMap.cas, Cas.createCas cas), (NameMap.flags, number flags),
     (NameMap.value, ValueFormat.decode bytes effectiveFlags)]
  | .store cas => [(NameMap.cas, Cas.createCas cas)]
  | .arithmetic cas value => [(NameMap.cas, Cas.createCas cas),
      (NameMap.value, .number (Runtime.ofUInt64 value))]
  | .touch cas => [(NameMap.cas, Cas.createCas cas)]
  | .unlock => []
  | .remove cas => [(NameMap.cas, Cas.createCas cas)]
  | .durability cas _ existsMaster persistedMaster npersisted nreplicated =>
    (if existsMaster then [(NameMap.durFoundMaster, .bool true)] else []) ++
    (if persistedMaster then [(NameMap.durPersistedMaster, .bool true)] else []) ++
    [(NameMap.durNPersisted, number npersisted), (NameMap.durNReplicated, number nreplicated),
     (NameMap.cas, Cas.createCas cas)]

/-- `ResponseInfo(err, resp)`. A durability response carries its fields whatever its
    status, and its own error when the call itself did not fail. -/
def ofResp (err : Int) (key : Option (List UInt8)) (resp : Resp) (keyOption : Option Value) :
    ResponseInfo :=
  match resp with
  | .durability _ respErr _ _ _ _ =>
    { status := if err = LCB_SUCCESS then respErr else err
      payload := some (fields keyOption resp), key := key }
  | _ =>
    { status := err, key := key
      payload := some (if err = LCB_SUCCESS then fields keyOption resp else []) }

/-- `ResponseInfo(err, resp)` for an observe response; the last one has no key, and then no
    payload. -/
def ofObserve (err : Int) (resp : ObserveResp) : ResponseInfo where
  status := err
  key := resp.key
  payload := resp.key.map fun _ =>
    [(NameMap.obsCode, number resp.status), (NameMap.cas, Cas.createCas resp.cas)] ++
    (if resp.fromMaster then [(NameMap.obsIsMaster, .bool true)] else []) ++
    [(NameMap.obsTtp, number resp.ttp), (NameMap.obsTtr, number resp.ttr)]

/-- `ResponseInfo(err, kObj)`, for a cancelled key. -/
def ofKey (err : Int) (kObj : Value) : ResponseInfo :=
  { status := err, payload := some [], key := none, keyObj := some kObj }

end ResponseInfo

end ResponseInfo

structure Cookie where
  kind : CookieKind
  callback : Value := .undefined
  cbType : CallbackMode := .single
  remaining : Nat
  hasError : Bool := false
  isCancelled : Bool := false
  spooledInfo : Option Props := none
  keyOptions : Option Props := none
  lastError : Int := LCB_SUCCESS
  calls : List Invocation := []
  deletes : Nat := 0
  usedAfterDelete : Bool := false

namespace Cookie

/-- Use a member. -/
def touch (c : Cookie) : Cookie :=
  if c.deletes = 0 then c else { c with usedAfterDelete := true }

/-- `delete this`. -/
def delete (c : Cookie) : Cookie := { c.touch with deletes := c.deletes + 1 }

/-- `MakeCallback(..., callback, argc, args)`. -/
def invoke (args : List Value) (c : Cookie) : Cookie :=
  { c.touch with calls := c.calls ++ [{ fn := c.callback, args := args }] }

/-- `remaining--` -/
def decrement : Nat → Nat
  | 0 => 2 ^ 32 - 1
  | n + 1 => n

def initSpooledInfo (c : Cookie) : Cookie :=
  { c with spooledInfo := some (c.spooledInfo.getD []) }

def setCallback (cb : Value) (mode : CallbackMode) (c : Cookie) : Cookie :=
  let c := { c with callback := cb, cbType := mode }
  if mode = .spooled then c.initSpooledInfo else c

/-- `Cookie(n)`, and `ObserveCookie(n)`, `StatsCookie()`, `HttpCookie()`. -/
def create (kind : CookieKind) (n : Nat) : Cookie :=
  match kind with
  | .plain => { kind := kind, remaining := n }
  | .observe => { kind := kind, remaining := n, spooledInfo := some [] }
  | _ => { kind := kind, remaining := 2 ^ 32 - 1 }

variable [Runtime]

/-- The per-key format the cookie was given for a key. -/
def getKeyOption (key : Value) (c : Cookie) : Option Value :=
  match c.keyOptions with
  | some ps => (Value.object ps).getRealNamedProperty key.toName
  | none => none

def invokeSingleCallback (errObj : Value) (info : ResponseInfo) (c : Cookie) : Cookie :=
  match info.payload with
  | some ps => c.invoke [errObj, .object ps]
  | none => c.invoke [errObj]

/-- The payload with the error on it. -/
def spooledPayload (errObj : Value) (info : ResponseInfo) : Props :=
  if errObj.isUndefined then info.payload.getD []
  else forceSet NameMap.err errObj (info.payload.getD [])

def addSpooledInfo (errObj : Value) (info : ResponseInfo) (c : Cookie) : Cookie :=
  { c.touch with
    spooledInfo := c.spooledInfo.map
      (forceSet info.keyName (.object (spooledPayload errObj info))) }

/-- The error of a spooled call some of whose keys failed. -/
def checkResults : Value :=
  (CBExc.assign ErrorCode.CHECK_RESULTS
    ("At least one of your operations failed, check the results" ++
      " object for more information.") {}).asValue

def invokeSpooledCallback (c : Cookie) : Cookie :=
  c.invoke [if c.hasError then checkResults else .undefined, .object (c.spooledInfo.getD [])]

/-- `markProgress`, first part: count down, and a key-less response ends a spooled request. -/
def countDown (info : ResponseInfo) (c : Cookie) : Cookie :=
  let c := { c.touch with remaining := decrement c.remaining }
  if c.isCancelled = false && info.hasKey = false && c.cbType = .spooled then
    c.invokeSpooledCallback.delete
  else c

/-- Second part: report the response, or keep it with the others. -/
def report (info : ResponseInfo) (c : Cookie) : Cookie :=
  let c := if info.status ≠ LCB_SUCCESS then { c.touch with hasError := true } else c
  let errObj := errorObject info.status
  let c := c.touch
  if c.cbType = .single then c.invokeSingleCallback errObj info
  else c.addSpooledInfo errObj info

/-- Last part: the final call of a spooled request, and the end of the cookie. -/
def finish (c : Cookie) : Cookie :=
  let c := c.touch
  let c := if c.remaining = 0 && c.cbType = .spooled then c.invokeSpooledCallback else c
  if c.remaining = 0 then c.delete else c

/-- `markProgress` -/
def markProgress (info : ResponseInfo) (c : Cookie) : Cookie :=
  ((c.countDown info).report info).finish

/-- A run of responses, each one a `markProgress`. -/
def responses (infos : List ResponseInfo) (c : Cookie) : Cookie :=
  infos.foldl (fun c info => c.markProgress info) c

/-- A response from libcouchbase: its status, its key and its other members. -/
structure Response where
  err : Int
  key : List UInt8
  resp : Resp

/-- What the response callbacks build before they call `markProgress`. -/
def responseInfo (r : Response) (c : Cookie) : ResponseInfo :=
  .ofResp r.err (some r.key) r.resp (c.getKeyOption (.string (Runtime.stringNew r.key)))

/-- `get_callback`, `store_callback`, and so on. -/
def receive (c : Cookie) (r : Response) : Cookie := c.markProgress (c.responseInfo r)

/-- Responses as they arrive. -/
def receiveAll (rs : List Response) (c : Cookie) : Cookie := rs.foldl receive c

/-- `StatsCookie::invoke` -/
def statsInvoke (err : Int) (c : Cookie) : Cookie :=
  (c.invoke [errorObject err, .object (c.spooledInfo.getD [])]).delete

/-- `StatsCookie::update`, first part: `lastError` is the first error. -/
def latchError (err : Int) (c : Cookie) : Cookie :=
  let c := c.touch
  if err ≠ LCB_SUCCESS && c.lastError = LCB_SUCCESS then { c with lastError := err } else c

/-- Last part: a statistic is set on the object of its server. `Has` and `Get` also find what the
    results object inherits; it is then set on that, which is no property of the results. -/
def addStat (endpoint : List UInt8) (resp : StatResp) (c : Cookie) : Cookie :=
  let c := c.touch
  let serverString := Runtime.stringNew endpoint
  let results := c.spooledInfo.getD []
  let insert (serverStats : Props) : Cookie :=
    let stats := forceSet (Runtime.stringNew resp.key) (.string (Runtime.stringNew resp.bytes))
      serverStats
    { c with spooledInfo := some (forceSet serverString (.object stats) results) }
  match results.lookup serverString with
  | none => if prototypeHas serverString then c else insert []
  | some (.object serverStats) => insert serverStats
  | some _ => c

/-- `StatsCookie::update` -/
def statsUpdate (c : Cookie) (r : Int × Option StatResp) : Cookie :=
  let c := c.latchError r.1
  match r.2 with
  | none => c.statsInvoke c.lastError
  | some resp =>
    match resp.serverEndpoint with
    | none => c.statsInvoke c.lastError
    | some endpoint => c.addStat endpoint resp

/-- `stats_callback`, for responses as they arrive. -/
def statsAll (rs : List (Int × Option StatResp)) (c : Cookie) : Cookie := rs.foldl statsUpdate c

/-- `HttpCookie::update` without a response. -/
def httpCancel (err : Int) (c : Cookie) : Cookie :=
  (c.invoke [errorObject err]).delete

/-- The payload of an HTTP response. `String::New` makes a string of any bytes, so the body is
    never encoded as binary. -/
def httpPayload (err : Int) (resp : HttpResp) : Props :=
  let payload := forceSet NameMap.httpStatus (.number (.fin resp.status)) []
  let payload :=
    if err ≠ LCB_SUCCESS then forceSet NameMap.err (errorObject err) payload else payload
  let payload :=
    if resp.bytes ≠ [] then
      forceSet NameMap.httpContent (.string (Runtime.stringNew resp.bytes)) payload
    else payload
  match resp.path with
  | some path => forceSet NameMap.httpPath (.string (Runtime.stringNew path)) payload
  | none => payload

/-- `HttpCookie::update` -/
def httpUpdate (err : Int) (resp : Option HttpResp) (c : Cookie) : Cookie :=
  match resp with
  | none => c.httpCancel err
  | some resp => (c.invoke [errorObject err, .object (httpPayload err resp)]).delete

/-- `cancel`, by cookie class. -/
def cancel (err : Int) (keys : List Value) (c : Cookie) : Cookie :=
  match c.kind with
  | .plain | .observe =>
    responses (keys.map (ResponseInfo.ofKey err)) { c.touch with isCancelled := true }
  | .stats => c.statsInvoke err
  | .http => c.httpCancel err

/-- `kArray->Set(kArray->Length() - 1, payload)` -/
def setLast (payload : Value) (elems : List Value) : List Value :=
  elems.set (elems.length - 1) payload

/-- `ObserveCookie::update`. `Get` also finds what the results object inherits, and its prototype
    under `__proto__`; that is then used as an array, and nothing says what comes of it (`none`). -/
def observeUpdate (c : Cookie) (r : Int × ObserveResp) : Option Cookie :=
  let ri := ResponseInfo.ofObserve r.1 r.2
  if !ri.hasKey then some c.invokeSpooledCallback.delete
  else
    let c := if r.1 ≠ LCB_SUCCESS then { c.touch with hasError := true } else c
    let c := c.touch
    let results := c.spooledInfo.getD []
    let payload := .object (ri.payload.getD [])
    let insert (kArray : List Value) : Cookie :=
      { c with spooledInfo := some (forceSet ri.keyName (.array (setLast payload kArray)) results) }
    match results.lookup ri.keyName with
    -- `Array::New(1)`: one element, which is not there yet
    | none => if prototypeHas ri.keyName then none else some (insert [.undefined])
    | some .undefined => some (insert [.undefined])
    | some (.array elems) => some (insert elems)
    | some _ => none

/-- `observe_callback`, for responses as they arrive. -/
def observeAll (rs : List (Int × ObserveResp)) (c : Cookie) : Option Cookie :=
  rs.foldlM observeUpdate c

end Cookie

end Couchnode
