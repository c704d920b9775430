import Couchnode.Js.Connection
import Couchnode.Lib.Versioned
import Couchnode.Spec.Requests

/-!
# A server of documents

What a bucket is to an application: a store of documents, one for each key, each with the CAS it
was written with. A `DocumentServer` stands for libcouchbase and the servers behind it. It is told
by the command it was called with what to do (`documentRequest`), does it as the store of
`Lib.Versioned` does, and answers as libcouchbase does (`responseTo`).

`DocCall` is the part of `Connection` such a store has a meaning for, and `session` is what is told
to the callbacks of some calls, in the order in which the server gets to them, whichever
connections made them.
-/

set_option autoImplicit false

namespace Couchnode

open Versioned (Guard)

/-- `LCB_KEY_EEXISTS`: there is a document already, or it has another CAS. -/
def LCB_KEY_EEXISTS : Int := 0x0C

/-- `LCB_KEY_ENOENT`: there is no document. -/
def LCB_KEY_ENOENT : Int := 0x0D

/-- A document as it is stored. -/
structure Document where
  flags : Nat
  bytes : Bytes

/-- A get without a format makes this of it. -/
def Document.value [Runtime] (d : Document) : Value := ValueFormat.decode d.bytes d.flags

/-! ## The commands -/

/-- A CAS of 0 is none. -/
def guardOf (dflt : Guard) (cas : Nat) : Guard := if cas = 0 then dflt else .version cas

def StorageOp.guard (cas : Nat) : StorageOp → Guard
  | add => .absent
  | replace => guardOf .present cas
  | _ => guardOf .always cas

/-- Whether a storage command replaces the whole document. An `add` takes no CAS. -/
def StorageOp.whole (cas : Nat) : StorageOp → Bool
  | set | replace => true
  | add => cas = 0
  | append | prepend => false

/-- What a command does with a document. Commands that lock, expire or extend documents, or that
    are about other things, have no meaning here. -/
def documentRequest (call : LcbCall) : Option (Versioned.Request Bytes Document) :=
  match call.entry, call.cmds with
  | .get, [req] =>
    if req.hashkey = none ∧ req.nums.lock = 0 ∧ req.nums.exptime = 0 then req.key.map .read
    else none
  | .store, [req] => do
    let key ← req.key
    let bytes ← req.bytes
    let op ← req.nums.operation
    if req.hashkey = none ∧ req.nums.exptime = 0 ∧ op.whole req.nums.cas then
      some (.change key (some { flags := req.nums.flags, bytes := bytes }) (op.guard req.nums.cas))
    else none
  | .remove, [req] =>
    if req.hashkey = none then
      req.key.map fun key => .change key none (guardOf .present req.nums.cas)
    else none
  | _, _ => none

/-! ## The answers -/

/-- The members of the answer to a request that has the CAS `n` and nothing else. -/
def plainResp (r : Versioned.Request Bytes Document) (n : Nat) : Resp :=
  match r with
  | .read _ => .get 0 n []
  | .change _ (some _) _ => .store n
  | .change _ none _ => .remove n

def requestKey : Versioned.Request Bytes Document → Bytes
  | .read key => key
  | .change key _ _ => key

/-- The status a reply is reported under. -/
def replyStatus {D : Type} : Versioned.Reply D Int → Int
  | .found _ _ | .done _ => LCB_SUCCESS
  | .refused .missing => LCB_KEY_ENOENT
  | .refused .conflict => LCB_KEY_EEXISTS
  | .failed code => code

def responseTo (r : Versioned.Request Bytes Document) (reply : Versioned.Reply Document Int) :
    Cookie.Response where
  err := replyStatus reply
  key := requestKey r
  resp :=
    match reply with
    | .found d n => .get d.flags n d.bytes
    | .done n => plainResp r n
    | _ => plainResp r 0

/-- A failure that says nothing about the document. -/
def Failure (code : Int) : Prop :=
  code ≠ LCB_SUCCESS ∧ code ≠ LCB_KEY_ENOENT ∧ code ≠ LCB_KEY_EEXISTS

structure DocumentServer (σ : Type) where
  answer : LcbCall → σ → Cookie.Response × σ
  /-- What is stored. -/
  store : σ → Versioned.State Bytes Document

/-- The documented behaviour of libcouchbase and its servers: a CAS has 64 bits and is not 0, and a
    command does what it is for, or fails for a reason of its own, as when the server is busy. -/
structure DocumentServer.Documented {σ : Type} (srv : DocumentServer σ) : Prop where
  cas : ∀ s, ∀ n ∈ (srv.store s).used, 0 < n ∧ n < 2 ^ 64
  serves : ∀ call r s, documentRequest call = some r → ∃ reply,
    Versioned.Step (srv.store s) r reply (srv.store (srv.answer call s).2) ∧
    (srv.answer call s).1 = responseTo r reply ∧ ∀ code, reply = .failed code → Failure code

/-! ## The calls -/

/-- Calls for one document: the CAS is the one among the options, if there are any. -/
inductive DocCall where
  | get (key : String)
  | store (op : StorageOp) (key : String) (value : Value) (cas : Option Nat)
  | remove (key : String) (cas : Option Nat)

/-- The method of a storage command. -/
def StorageOp.method : StorageOp → Mutation
  | add => .add
  | replace => .replace
  | set => .set
  | append => .append
  | prepend => .prepend

namespace DocCall

def key : DocCall → String
  | get key | store _ key _ _ | remove key _ => key

def cas : DocCall → Option Nat
  | get _ => none
  | store _ _ _ cas | remove _ cas => cas

/-- The call is there to change the document of a name. -/
def Changes (name : String) (call : DocCall) : Prop := call.key = name ∧ call ≠ .get name

/-- What a call means. -/
def request : DocCall → Versioned.Request String Value
  | get key => .read key
  | store op key value cas => .change key (some value) (op.guard (cas.getD 0))
  | remove key cas => .change key none (guardOf .present (cas.getD 0))

variable [Runtime]

def invoke (callback : Value) : DocCall → NativeCall
  | get key => Access.get.invoke [.string key, callback]
  | store op key value none => op.method.invoke [.string key, value, callback]
  | store op key value (some cas) =>
    op.method.invoke [.string key, value, .object [(NameMap.cas, Cas.createCas cas)], callback]
  | remove key none => Mutation.remove.invoke [.string key, callback]
  | remove key (some cas) =>
    Mutation.remove.invoke [.string key, .object [(NameMap.cas, Cas.createCas cas)], callback]

end DocCall

section Session

variable [Runtime] {σ : Type}

/-- What is stored, as the application sees it. -/
def DocumentServer.values (srv : DocumentServer σ) (s : σ) : Versioned.State String Value :=
  (srv.store s).view utf8 Document.value

/-- What the fields of a result say of a reply: the document that was found, and its CAS. -/
def Shows (fields : Props) : Versioned.Reply Value Int → Prop
  | .found v n => fields.lookup NameMap.value = some v ∧
      fields.lookup NameMap.cas = some (Cas.createCas n)
  | .done n => fields.lookup NameMap.cas = some (Cas.createCas n)
  | .refused _ => True
  | .failed code => Failure code

/-- Callback `i` is told of a reply: once, with its error and its fields. -/
def ToldReply (i : Nat) (reply : Versioned.Reply Value Int) (told : List Invocation) : Prop :=
  ∃ fields, Shows fields reply ∧
    told = [{ fn := .function i, args := [errorObject (replyStatus reply), .object fields] }]

/-- What the application is told of the answer to a call, and where the server is then. -/
def DocumentServer.serve (srv : DocumentServer σ) (h : Heap) (call : NativeCall) (s : σ) :
    Option (List Invocation × σ) :=
  match call.callback with
  | .interceptor .. => none
  | .user callback =>
    match Command.accept call.target.cls (call.args ++ [callback]) (Command.start h) with
    | .done hd st => do
      let cookie := (Command.ofState hd st).createCookie call.target.cls
      let lcb ← (Command.ofState hd st).execute call.target.cls st.heap
      let (response, s') := srv.answer lcb s
      some ((Cookie.receiveAll [response] cookie).calls, s')
    | _ => none

/-- Calls, each with its callback, as the server gets to them. -/
def DocumentServer.session (srv : DocumentServer σ) (h : Heap) :
    List (DocCall × Nat) → σ → Option (List (List Invocation) × σ)
  | [], s => some ([], s)
  | (call, callback) :: calls, s => do
    let (told, s') ← srv.serve h (call.invoke (.function callback)) s
    let (rest, s'') ← srv.session h calls s'
    some (told :: rest, s'')

end Session

end Couchnode
