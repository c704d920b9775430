import Couchnode.Proof.BatchReport
import Couchnode.Proof.Forms
import Couchnode.Proof.Rewrite
import Couchnode.Spec.Documents
import Mathlib.Algebra.Order.BigOperators.Group.List

/-!
# The application sees a map from names to values

With a server that does what it is documented to do, `get`, `set`, `add`, `replace` and `remove`
are the requests of a map from names to values, though what is stored are bytes under bytes:
`session_refines`. What is proved of such maps holds of the application's calls. `no_lost_update`
is compare and swap: who sets or removes a document with the CAS a `get` was told changes the
document it was told.

Each call is taken to the command it asks for (`get_called`, `store_called`, `remove_called`), the
command to what it asks of the server, and the server's answer back to the callback (`Called`).
-/

set_option autoImplicit false

namespace Couchnode

/-- A value that survives storage (`encode_decode_iff`). -/
structure Value.Kept [Runtime] (v : Value) : Prop where
  storable : Storable v
  nonempty : v ≠ .buffer []
  json : JsonValue v → JsonInverse v

/-- A call that means something: it has a name, a CAS of 64 bits, and a value that survives. -/
structure DocCall.Usable [Runtime] (call : DocCall) : Prop where
  key : call.key ≠ ""
  cas : ∀ n, call.cas = some n → n < 2 ^ 64
  value : ∀ op key v cas, call = .store op key v cas → op.whole (cas.getD 0) = true ∧ v.Kept

namespace Proof

open Prog Command ValueFormat Versioned
open ParamSlot (parseAll_object parseSpecs_ok parseSpecs_none field_ok)

variable [Runtime]

/-! ## From a call to its command, and from an answer to the callback -/

section Native

variable {k : Kind} {args : List Value} {hd : Header k.Opts} {st : PState} {h : Heap}
  {req : LcbReq} {key : String} {params : Option Value} {i : Nat} {r : Cookie.Response}

theorem createCookie_mode_plain (hplain : k.cls.cookieKind = .plain) :
    ((ofState hd st).createCookie k.cls).cbType =
      if hd.isSpooled.isFound && hd.isSpooled.v then .spooled else .single := by
  unfold Command.createCookie
  rw [hplain]
  exact initCookie_mode _ _

/-- What a callback is told of one answer. -/
def toldOf (i : Nat) (r : Cookie.Response) : Invocation :=
  let info := ResponseInfo.ofResp r.err (some r.key) r.resp none
  { fn := .function i, args := [errorObject info.status, .object (info.payload.getD [])] }

/-- The cookie of a call for one key reports the answer as it is, if it has noted no format. -/
theorem one_answered (hplain : k.cls.cookieKind = .plain)
    (hacc : accept k.cls args (Command.start h) = .done hd st)
    (hcb : lastArg args = .function i) (hitems : callItems args = [(some (.string key), params)])
    (hsingle : hd.isSpooled.isFound = false) (hnotes : st.cookieKeyOptions = none)
    (hkey : r.key = utf8 key) :
    (Cookie.receiveAll [r] ((ofState hd st).createCookie k.cls)).calls = [toldOf i r] := by
  have hitems : callItems args = [key].map fun name => (some (.string name), params) := hitems
  have hrs : ([r].map (·.key)).Perm ([key].map fun name => utf8 name) := by
    rw [List.map_singleton, List.map_singleton, hkey]
  have hans := named_answered hplain hacc hitems hrs
  have hmode : ((ofState hd st).createCookie k.cls).cbType = .single := by
    rw [createCookie_mode_plain hplain, hsingle]
    rfl
  have hinfo : ((ofState hd st).createCookie k.cls).responseInfo r =
      .ofResp r.err (some r.key) r.resp none := by
    unfold Cookie.responseInfo Cookie.getKeyOption
    rw [createCookie_keyOptions hplain, hnotes]
  have hcalls : (Cookie.receiveAll [r] ((ofState hd st).createCookie k.cls)).calls =
      [singleCall ((ofState hd st).createCookie k.cls)
        (((ofState hd st).createCookie k.cls).responseInfo r)] :=
    hans.single hmode 1 (Nat.le_refl 1)
  rw [hcalls, singleCall, responseInfo_payload, (createCookie_callback hacc).1, hcb, hinfo]
  rfl

/-- A call whose only command is in order is accepted, and sent. -/
theorem one_sent (hby : ByKey k) (hh : header k.cls args = some hd)
    (hreqs : Command.requests k hd = some [req]) (hne : hd.keys.ncmds ≠ 0) (h : Heap) :
    ∃ st, accept k.cls args (Command.start h) = .done hd st ∧
      (ofState hd st).execute k.cls st.heap =
        some { entry := k.cls.entry hd.globalOptions 0, cmds := [req] } := by
  have hcall : Command.call k args =
      some { entry := k.cls.entry hd.globalOptions 0, cmds := [req] } := by
    unfold Command.call
    simp only [Option.bind_eq_bind, hh, Option.bind_some, hreqs, if_neg hne]
  obtain ⟨hd', st, hacc⟩ := call_accepted hby hcall h
  cases (accept_header hacc).symm.trans hh
  exact ⟨st, hacc, (execute_call hby hacc).trans hcall⟩

/-- The commands of a header with one key. -/
theorem requests_single {item : Option Value × Option Value} (hitems : hd.keys.items = [item])
    (hreq : itemRequest k.cls k.request hd item = some req) :
    Command.requests k hd = some [req] := by
  unfold Command.requests
  rw [hitems, List.mapM_cons, hreq]
  rfl

end Native

/-! ## The calls, one by one -/

section Calls

variable {σ : Type} {srv : DocumentServer σ} {call : NativeCall} {key : String} {i : Nat} {h : Heap}
  {r : Request Bytes Document}

/-- The call asks the server for `r`, and its callback is told of the answer. -/
def Called (call : NativeCall) (key : String) (i : Nat) (h : Heap)
    (r : Request Bytes Document) : Prop :=
  ∀ {σ : Type} (srv : DocumentServer σ) (s : σ), ∃ lcb, documentRequest lcb = some r ∧
    ((srv.answer lcb s).1.key = utf8 key →
      srv.serve h call s = some ([toldOf i (srv.answer lcb s).1], (srv.answer lcb s).2))

/-- A call of a plain class, whose header says nothing but the key. -/
theorem called_one {k : Kind} {args : List Value} {hd : Header k.Opts} {req : LcbReq}
    {params : Option Value} (hplain : k.cls.cookieKind = .plain)
    (hh : header k.cls (args ++ [.function i]) = some hd)
    (hreqs : Command.requests k hd = some [req])
    (hitems : callItems (args ++ [.function i]) = [(some (.string key), params)])
    (hsingle : hd.isSpooled.isFound = false)
    (hnotes : ∀ st, accept k.cls (args ++ [.function i]) (Command.start h) = .done hd st →
      st.cookieKeyOptions = none)
    (hr : documentRequest { entry := k.cls.entry hd.globalOptions 0, cmds := [req] } = some r) :
    Called { target := k, args := args, callback := .user (.function i) } key i h r := by
  intro σ srv s
  have hne : hd.keys.ncmds ≠ 0 := by
    have hlen := items_length (arg (args ++ [.function i]) 0)
    rw [header_keys hh, ← hlen]
    show (callItems (args ++ [.function i])).length ≠ 0
    rw [hitems]
    exact Nat.one_ne_zero
  obtain ⟨st, hacc, hexec⟩ := one_sent (plain_byKey hplain) hh hreqs hne h
  refine ⟨_, hr, fun hkey => ?_⟩
  have htold := one_answered hplain hacc (lastArg_append _ _) hitems hsingle (hnotes st hacc) hkey
  unfold DocumentServer.serve
  simp only [hacc, hexec, Option.bind_eq_bind, Option.bind_some, htold]

/-- The header of a call without options. -/
def plainHeader {O : Type} (args : List Value) (i : Nat) (glob : O) : Header O where
  apiArgs := args
  callback := { v := some (.function i), status := .found }
  keys := KeysInfo.setKeys (arg args 0)
  globalOptions := glob

/-- A key of its own, as the commands have it. -/
theorem key_text (hkey : key ≠ "") : backedString none (some (.string key)) = some (utf8 key) := by
  unfold backedString
  simp [Value.isString, Value.toName, utf8_ne_nil hkey]

/-- **A `get`.** -/
theorem get_called (hkey : key ≠ "") (i : Nat) (h : Heap) :
    Called ((DocCall.get key).invoke (.function i)) key i h (.read (utf8 key)) := by
  let args : List Value := [.array [.string key], .null, .function i]
  let hd : Header Kind.get.Opts := plainHeader args i ({} : GetOptions)
  have hitems : callItems args = [(some (.string key), none)] := rfl
  have hreq : itemRequest Kind.get.cls Kind.get.request hd (some (.string key), none) =
      some (.keyed (some (utf8 key)) none {}) := by
    unfold itemRequest
    rw [show backedString Kind.get.cls.getDefaultString _ = _ from key_text hkey]
    rfl
  have hr : documentRequest { entry := .get, cmds := [.keyed (some (utf8 key)) none {}] } =
      some (.read (utf8 key)) := rfl
  refine @called_one _ key i h _ .get [.array [.string key], .null] hd _ none
    rfl rfl (requests_single hitems hreq) hitems rfl ?_ hr
  intro st hacc
  have hvalid : ∀ item ∈ callItems args, specOf .get args item ≠ .invalid := by
    intro item hitem
    rw [List.mem_singleton.mp hitem]
    exact show ValueFormat.Spec.auto ≠ .invalid by decide
  have hoptions := get_cookie (.inl rfl) hacc hvalid
  rw [createCookie_keyOptions (k := .get) rfl] at hoptions
  exact hoptions

/-- What `_invokeStorage` makes of a value and a CAS. -/
def storeOptions (v : Value) : Option Nat → Props
  | none => [(NameMap.value, v)]
  | some cas => [(NameMap.value, v), (NameMap.cas, Cas.createCas cas)]

/-- What the store handler reads of them. -/
def readOptions (v : Value) (cas : Option Nat) : StoreOptions where
  cas := match cas with
    | none => { v := 0 }
    | some n => { v := n, status := .found }
  value := { v := some v, status := .found }

theorem storeOptions_oneKey {v : Value} {cas : Option Nat} (hcas : ∀ n, cas = some n → n < 2 ^ 64) :
    OneKey (storeOptions v cas) (readOptions v cas) v where
  hashkey := by cases cas <;> rfl
  parsed := by
    unfold StoreOptions.specs
    cases cas with
    | none =>
      unfold storeOptions
      rw [parseAll_object, parseSpecs_none rfl, parseSpecs_none rfl, parseSpecs_none rfl,
        parseSpecs_ok (show _ = some v from rfl) (field_ok rfl), parseSpecs_none rfl]
      unfold ParamSlot.parseSpecs
      rfl
    | some n =>
      have hparse (s : Slot Nat) :
          CasSlot.parseValue (Cas.createCas n) s = .ok { v := n, status := .found } := by
        rw [parse_cas, cas_of_bytes (hcas n rfl)]
      unfold storeOptions
      rw [parseAll_object, parseSpecs_ok rfl (field_ok (hparse _)), parseSpecs_none rfl,
        parseSpecs_none rfl, parseSpecs_ok (show _ = some v from rfl) (field_ok rfl),
        parseSpecs_none rfl]
      unfold ParamSlot.parseSpecs
      rfl
  format := rfl
  value := rfl

/-- Without durability the callback is the application's own. -/
theorem plain_callback {params : Props} (hplain : Durable (.object params) = false)
    (isDelete : Bool) (callback : Value) :
    Connection.interceptEndure (.string key) (.object [(key, .object params)]) (.object []) isDelete
      callback = .user callback := by
  have hkeyed : Connection.interceptEndure (.string key)
      (.object [((Value.string key).toName, .object params)]) (.object []) isDelete callback =
        if _ then _ else _ := interceptEndure_key
  rw [hplain, Bool.and_false] at hkeyed
  exact hkeyed

theorem store_invoke (op : StorageOp) (key : String) (v : Value) (cas : Option Nat) (i : Nat) :
    (DocCall.store op key v cas).invoke (.function i) =
      { target := .store op, args := [.object [(key, .object (storeOptions v cas))], .null]
        callback := .user (.function i) } := by
  have hplain : Durable (.object (storeOptions v cas)) = false := by cases cas <;> rfl
  have hmethod : (DocCall.store op key v cas).invoke (.function i) =
      { target := .store op, args := [.object [(key, .object (storeOptions v cas))], .null]
        callback := Connection.interceptEndure (.string key)
          (.object [(key, .object (storeOptions v cas))]) (.object []) false (.function i) } := by
    cases op <;> cases cas <;> rfl
  rw [hmethod, plain_callback hplain]

omit [Runtime] in
/-- A storage command that replaces the whole document. -/
theorem storage_request {req : LcbReq} {op : StorageOp} {name bs : Bytes}
    (hname : req.key = some name) (hhash : req.hashkey = none) (hbs : req.bytes = some bs)
    (hexp : req.nums.exptime = 0) (hop : req.nums.operation = some op)
    (hwhole : op.whole req.nums.cas = true) :
    documentRequest { entry := .store, cmds := [req] } =
      some (.change name (some { flags := req.nums.flags, bytes := bs })
        (op.guard req.nums.cas)) := by
  simp [documentRequest, hname, hhash, hbs, hexp, hop, hwhole]

/-- **A `set`, an `add` or a `replace`.** -/
theorem store_called {op : StorageOp} {v : Value} {cas : Option Nat} {flags : Nat} {bs : Bytes}
    (hkey : key ≠ "") (henc : encoding v .auto = some (flags, bs))
    (hwhole : op.whole (cas.getD 0) = true) (hcas : ∀ n, cas = some n → n < 2 ^ 64)
    (i : Nat) (h : Heap) :
    Called ((DocCall.store op key v cas).invoke (.function i)) key i h
      (.change (utf8 key) (some { flags := flags, bytes := bs }) (op.guard (cas.getD 0))) := by
  have hone := storeOptions_oneKey (v := v) hcas
  have hreqs := requests_one op i (utf8_ne_nil hkey) hone henc
  have hn : (readOptions v cas).cas.v = cas.getD 0 := by cases cas <;> rfl
  have hr : documentRequest { entry := .store, cmds :=
      [{ LcbReq.keyed (some (utf8 key)) none (StoreCommand.nums op (readOptions v cas) {} flags {})
        with bytes := some bs }] } =
      some (.change (utf8 key) (some { flags := flags, bytes := bs }) (op.guard (cas.getD 0))) := by
    rw [← hn] at hwhole ⊢
    exact storage_request rfl rfl rfl rfl rfl hwhole
  rw [store_invoke]
  refine @called_one _ key i h _ (.store op) [.object [(key, .object (storeOptions v cas))], .null]
    (oneKeyHeader key (storeOptions v cas) i) _ _ rfl
    (initialize_header (initialize_one (h := h))) hreqs (items_one key _) rfl ?_ hr
  intro st hacc
  exact (store_accepted_notes hacc).2

omit [Runtime] in
theorem remove_request (name : Bytes) (n : Nat) :
    documentRequest { entry := .remove, cmds := [.keyed (some name) none { cas := n }] } =
      some (.change name none (guardOf .present n)) := rfl

theorem remove_plain (hkey : key ≠ "") (i : Nat) (h : Heap) :
    Called ((DocCall.remove key none).invoke (.function i)) key i h
      (.change (utf8 key) none (guardOf .present 0)) := by
  let args : List Value := [.array [.string key], .null, .function i]
  let hd : Header Kind.delete.Opts := plainHeader args i ({} : UnlockOptions)
  have hitems : callItems args = [(some (.string key), none)] := rfl
  have hreq : itemRequest Kind.delete.cls Kind.delete.request hd (some (.string key), none) =
      some (.keyed (some (utf8 key)) none { cas := 0 }) := by
    unfold itemRequest
    rw [show backedString Kind.delete.cls.getDefaultString _ = _ from key_text hkey]
    rfl
  refine @called_one _ key i h _ .delete [.array [.string key], .null] hd _ none
    rfl rfl (requests_single hitems hreq) hitems rfl ?_ (remove_request _ 0)
  intro st hacc
  exact quiet_accepted quiet_delete hacc

theorem remove_cas {n : Nat} (hkey : key ≠ "") (hn : n < 2 ^ 64) (i : Nat) (h : Heap) :
    Called ((DocCall.remove key (some n)).invoke (.function i)) key i h
      (.change (utf8 key) none (guardOf .present n)) := by
  let options : Props := [(NameMap.cas, Cas.createCas n)]
  let args : List Value := [.object [(key, .object options)], .function i]
  let hd : Header Kind.delete.Opts := plainHeader args i ({} : UnlockOptions)
  have hlt : ∀ m, some n = some m → m < 2 ^ 64 := by
    rintro m ⟨⟩
    exact hn
  have hreq : itemRequest Kind.delete.cls Kind.delete.request hd
      (some (.string key), some (.object options)) =
        some (.keyed (some (utf8 key)) none { cas := n }) :=
    @item_reused _ .delete options (some n) hd key (.inr (.inl rfl)) rfl hlt rfl rfl
      (utf8_ne_nil hkey)
  have hinvoke : (DocCall.remove key (some n)).invoke (.function i) =
      { target := .delete, args := [.object [(key, .object options)]]
        callback := .user (.function i) } :=
    congrArg (NativeCall.mk .delete _) (plain_callback rfl true _)
  rw [hinvoke]
  refine @called_one _ key i h _ .delete [.object [(key, .object options)]] hd _ _
    rfl rfl (requests_single (items_one key _) hreq) (items_one key _) rfl ?_ (remove_request _ n)
  intro st hacc
  exact quiet_accepted quiet_delete hacc

/-- **A `remove`.** -/
theorem remove_called {cas : Option Nat} (hkey : key ≠ "") (hcas : ∀ n, cas = some n → n < 2 ^ 64)
    (i : Nat) (h : Heap) :
    Called ((DocCall.remove key cas).invoke (.function i)) key i h
      (.change (utf8 key) none (guardOf .present (cas.getD 0))) := by
  cases cas with
  | none => exact remove_plain hkey i h
  | some n => exact remove_cas hkey (hcas n rfl) i h

end Calls

/-! ## Sessions -/

section Sessions

variable {σ : Type} {srv : DocumentServer σ} {call : DocCall} {calls : List (DocCall × Nat)}
  {i : Nat} {h : Heap} {s : σ}

/-- **What a call asks of the server is what it means**, in the server's terms. -/
theorem call_called (hnew : StringNewInverse) (hu : call.Usable) (i : Nat) (h : Heap) :
    ∃ r, call.request.Encodes utf8 Document.value r ∧ requestKey r = utf8 call.key ∧
      Called (call.invoke (.function i)) call.key i h r := by
  cases call with
  | get key => exact ⟨_, .read key, rfl, get_called hu.key i h⟩
  | store op key v cas =>
    obtain ⟨hwhole, hv⟩ := hu.value op key v cas rfl
    obtain ⟨flags, bs, henc, hdec⟩ := (decode_encoding hnew hv.storable hv.json).mpr hv.nonempty
    have hdoc : Option.map Document.value (some { flags := flags, bytes := bs }) = some v :=
      congrArg some hdec
    exact ⟨_, .change key _ hdoc, rfl, store_called hu.key henc hwhole hu.cas i h⟩
  | remove key cas => exact ⟨_, .change key _ rfl, rfl, remove_called hu.key hu.cas i h⟩

/-- The names of documents are apart as bytes. -/
theorem utf8_injective (hnew : StringNewInverse) : Function.Injective utf8 := by
  intro a b hab
  rw [← hnew a, hab, hnew b]

/-- **What the callback is told of the answer.** -/
theorem toldOf_shows (r : Request Bytes Document) {reply : Reply Document Int}
    (hfail : ∀ code, reply = .failed code → Failure code) (i : Nat) :
    ToldReply i (reply.map Document.value) [toldOf i (responseTo r reply)] := by
  have hplain (err : Int) (key : Option Bytes) (n : Nat) :
      ResponseInfo.ofResp err key (plainResp r n) none =
        { status := err, key := key, payload :=
            some (if err = LCB_SUCCESS then ResponseInfo.fields none (plainResp r n) else []) } ∧
        (ResponseInfo.fields none (plainResp r n)).lookup NameMap.cas =
          some (Cas.createCas n) := by
    cases r with
    | read key => exact ⟨rfl, rfl⟩
    | change key doc guard => cases doc <;> exact ⟨rfl, rfl⟩
  unfold toldOf
  cases reply with
  | found d n => exact ⟨_, ⟨rfl, rfl⟩, rfl⟩
  | done n =>
    show ToldReply i (.done n) [_]
    obtain ⟨hinfo, hcas⟩ := hplain LCB_SUCCESS (some (requestKey r)) n
    refine ⟨ResponseInfo.fields none (plainResp r n), hcas, ?_⟩
    simp only [responseTo, replyStatus, hinfo]
    rfl
  | refused why =>
    refine ⟨[], trivial, ?_⟩
    simp only [responseTo, (hplain _ _ 0).1]
    cases why <;> rfl
  | failed code =>
    refine ⟨[], hfail code rfl, ?_⟩
    simp only [responseTo, (hplain _ _ 0).1, replyStatus, Reply.map,
      if_neg (hfail code rfl).1]
    rfl

/-- **One call is one step of the map.** -/
theorem serve_step (hnew : StringNewInverse) (hsrv : srv.Documented) (hu : call.Usable) (i : Nat)
    (h : Heap) (s : σ) :
    ∃ reply told s', srv.serve h (call.invoke (.function i)) s = some (told, s') ∧
      ToldReply i reply told ∧ Step (srv.values s) call.request reply (srv.values s') := by
  obtain ⟨r, henc, hkey, hcalled⟩ := call_called hnew hu i h
  obtain ⟨lcb, hr, hserve⟩ := hcalled srv s
  obtain ⟨reply, hstep, hanswer, hfail⟩ := hsrv.serves lcb r s hr
  refine ⟨reply.map Document.value, _, _, hserve ?_, ?_, hstep.view (utf8_injective hnew) henc⟩
  · rw [hanswer]
    exact hkey
  · rw [hanswer]
    exact toldOf_shows r hfail i

/-- The history of some calls: what each asked for, and the reply. -/
def historyOf (calls : List (DocCall × Nat))
    (outcomes : List (Reply Value Int × List Invocation)) :
    List (Request String Value × Reply Value Int) :=
  (calls.zip outcomes).map fun x => (x.1.1.request, x.2.1)

/-- Some calls are some steps of the map. -/
theorem session_steps (hnew : StringNewInverse) (hsrv : srv.Documented)
    (hcalls : ∀ c ∈ calls, c.1.Usable) (h : Heap) (s : σ) :
    ∃ (outcomes : List (Reply Value Int × List Invocation)) (s' : σ),
      srv.session h calls s = some (outcomes.map Prod.snd, s') ∧
      List.Forall₂ (fun c o => ToldReply c.2 o.1 o.2) calls outcomes ∧
      Run (srv.values s) (historyOf calls outcomes) (srv.values s') := by
  induction calls generalizing s with
  | nil => exact ⟨[], s, rfl, .nil, .nil _⟩
  | cons c calls ih =>
    obtain ⟨hc, hcalls⟩ := List.forall_mem_cons.mp hcalls
    obtain ⟨reply, told, s₁, hserve, htold, hstep⟩ := serve_step hnew hsrv hc c.2 h s
    obtain ⟨outcomes, s', hsession, htolds, hrun⟩ := ih hcalls s₁
    refine ⟨(reply, told) :: outcomes, s', ?_, .cons htold htolds, .cons hstep hrun⟩
    simp only [DocumentServer.session, hserve, Option.bind_eq_bind, Option.bind_some, hsession,
      List.map_cons]

/-- **The application sees a map.** Of any calls, in the order in which the server gets to them,
    each callback is told once, what a map from names to values would reply to these requests; and
    if no change of a name failed, it ends with the value of the last one that was done. -/
theorem session_refines (hnew : StringNewInverse) (hsrv : srv.Documented)
    (hcalls : ∀ c ∈ calls, c.1.Usable) (h : Heap) (s : σ) :
    ∃ (outcomes : List (Reply Value Int × List Invocation)) (s' : σ),
      srv.session h calls s = some (outcomes.map Prod.snd, s') ∧
      List.Forall₂ (fun c o => ToldReply c.2 o.1 o.2) calls outcomes ∧
      Run (srv.values s) (historyOf calls outcomes) (srv.values s') ∧
      ∀ key, (∀ doc guard code,
          (.change key doc guard, .failed code) ∉ historyOf calls outcomes) →
        (srv.values s').docs key =
          latest key (historyOf calls outcomes) ((srv.values s).docs key) := by
  obtain ⟨outcomes, s', hsession, htold, hrun⟩ := session_steps hnew hsrv hcalls h s
  exact ⟨outcomes, s', hsession, htold, hrun, fun key hclear => run_latest hrun hclear⟩

end Sessions

/-! ## Compare and swap -/

section Swap

variable {σ : Type} {srv : DocumentServer σ} {call : DocCall} {key : String} {i j n : Nat}
  {h : Heap} {s s₁ s₂ s₃ : σ} {reply : Reply Value Int} {told : List Invocation} {fields : Props}
  {mid : List (DocCall × Nat)} {tolds : List (List Invocation)}

/-- The callback was told of no error. -/
def NoError (told : List Invocation) : Prop :=
  ∃ fn fields, told = [{ fn := fn, args := [.undefined, fields] }]

/-- It was told that there is no such document, or another. -/
def Refused (told : List Invocation) : Prop :=
  ∃ fn fields code, (code = LCB_KEY_ENOENT ∨ code = LCB_KEY_EEXISTS) ∧
    told = [{ fn := fn, args := [lcbError code, fields] }]

theorem lcbError_inj {code code' : Int} (he : lcbError code = lcbError code') : code = code' := by
  have hcode (code : Int) : ∃ msg, lcbError code = .error msg [("code", .number (.fin code))] :=
    ⟨_, rfl⟩
  obtain ⟨msg, hmsg⟩ := hcode code
  obtain ⟨msg', hmsg'⟩ := hcode code'
  rw [hmsg, hmsg'] at he
  have hnum : msg = msg' ∧ code = code' := by simpa using he
  exact hnum.2

/-- No error is told of what was found or done. -/
theorem told_noError (ht : ToldReply i reply told) :
    NoError told ↔ (∃ v n, reply = .found v n) ∨ ∃ n, reply = .done n := by
  obtain ⟨fields, hshows, rfl⟩ := ht
  have hstatus : NoError
      [{ fn := .function i, args := [errorObject (replyStatus reply), .object fields] }] ↔
        replyStatus reply = LCB_SUCCESS := by
    constructor
    · rintro ⟨fn, fields', heq⟩
      simp only [List.cons.injEq, Invocation.mk.injEq] at heq
      have hund := errorObject_undefined (replyStatus reply)
      rw [heq.1.2.1] at hund
      exact of_decide_eq_true hund.symm
    · intro hok
      rw [hok]
      exact ⟨_, _, rfl⟩
  rw [hstatus]
  cases reply with
  | found v n => simp [replyStatus]
  | done n => simp [replyStatus]
  | refused why => cases why <;> simp [replyStatus, LCB_KEY_ENOENT, LCB_KEY_EEXISTS, LCB_SUCCESS]
  | failed code =>
    have hne : code ≠ LCB_SUCCESS := hshows.1
    simp [replyStatus, hne]

theorem told_refused (ht : ToldReply i reply told) :
    Refused told ↔ ∃ why, reply = .refused why := by
  obtain ⟨fields, hshows, rfl⟩ := ht
  have hstatus : Refused
      [{ fn := .function i, args := [errorObject (replyStatus reply), .object fields] }] ↔
        replyStatus reply = LCB_KEY_ENOENT ∨ replyStatus reply = LCB_KEY_EEXISTS := by
    constructor
    · rintro ⟨fn, fields', code, hcode, heq⟩
      simp only [List.cons.injEq, Invocation.mk.injEq] at heq
      have herr : errorObject (replyStatus reply) = lcbError code := heq.1.2.1
      unfold errorObject at herr
      split at herr
      · rw [lcbError_inj herr]
        exact hcode
      · cases herr
    · intro hcode
      have hne : replyStatus reply ≠ LCB_SUCCESS := by
        rcases hcode with hcode | hcode <;> rw [hcode] <;> decide
      refine ⟨.function i, .object fields, _, hcode, ?_⟩
      unfold errorObject
      rw [if_pos hne]
  rw [hstatus]
  cases reply with
  | found v n => simp [replyStatus, LCB_KEY_ENOENT, LCB_KEY_EEXISTS, LCB_SUCCESS]
  | done n => simp [replyStatus, LCB_KEY_ENOENT, LCB_KEY_EEXISTS, LCB_SUCCESS]
  | refused why => cases why <;> simp [replyStatus]
  | failed code =>
    have hne : Failure code := hshows
    simp [replyStatus, hne.2.1, hne.2.2]

omit [Runtime] in
theorem changes_request : call.Changes key ↔
    ∃ doc guard, call.request = .change key doc guard := by
  unfold DocCall.Changes
  cases call <;> simp [DocCall.key, DocCall.request, eq_comm]

/-- The guard of a call with a CAS is that CAS. -/
theorem request_guarded (hu : call.Usable) (hc : call.Changes key) (hcas : call.cas = some n)
    (hn : 0 < n) : ∃ doc, call.request = .change key doc (.version n) := by
  have hguard (dflt : Guard) : guardOf dflt n = .version n := if_neg (Nat.ne_of_gt hn)
  obtain ⟨rfl, hget⟩ := hc
  cases call with
  | get key => exact absurd rfl hget
  | store op key v cas =>
    cases show cas = some n from hcas
    have hwhole := (hu.value op key v (some n) rfl).1
    refine ⟨some v, congrArg (Request.change key (some v)) ?_⟩
    show op.guard n = _
    cases op with
    | set => exact hguard _
    | replace => exact hguard _
    | add => exact absurd (of_decide_eq_true hwhole) (Nat.ne_of_gt hn)
    | append | prepend => cases hwhole
  | remove key cas =>
    cases show cas = some n from hcas
    exact ⟨none, congrArg (Request.change key none) (hguard _)⟩

/-- A `get` that was told of no error has found the document, and shows it. -/
theorem get_found (hsrv : srv.Documented)
    (hstep : Step (srv.values s) (.read key) reply (srv.values s₁)) (ht : ToldReply i reply told)
    (htold : told = [{ fn := .function i, args := [.undefined, .object fields] }])
    (hcas : fields.lookup NameMap.cas = some (Cas.createCas n)) (hn : n < 2 ^ 64) :
    0 < n ∧ ∃ v, fields.lookup NameMap.value = some v ∧ reply = .found v n := by
  obtain ⟨v, m, rfl⟩ : ∃ v m, reply = .found v m := by
    rcases (told_noError ht).mp ⟨_, _, htold⟩ with hfound | ⟨m, rfl⟩
    · exact hfound
    · exact absurd rfl ((step_reply hstep).1 key rfl m)
  obtain ⟨fields', ⟨hvalue, hcas'⟩, rfl⟩ := ht
  obtain ⟨_, rfl⟩ : errorObject (replyStatus (Reply.found (E := Int) v m)) = .undefined ∧
      fields' = fields := by simpa using htold
  have hm : 0 < m ∧ m < 2 ^ 64 :=
    hsrv.cas s m ((srv.values s).known key _ (step_found hstep).2)
  have hmn : m = n := createCas_inj hm.2 hn (Option.some.inj (hcas'.symm.trans hcas))
  subst hmn
  exact ⟨hm.1, v, hvalue, rfl⟩

section History

variable {outcomes : List (Reply Value Int × List Invocation)}

/-- Who was told of no error has changed the document. -/
theorem told_changed (htolds : List.Forall₂ (fun c o => ToldReply c.2 o.1 o.2) mid outcomes)
    {m m' : State String Value} (hrun : Run m (historyOf mid outcomes) m')
    {x : (DocCall × Nat) × List Invocation} (hx : x ∈ mid.zip (outcomes.map Prod.snd))
    (hc : x.1.1.Changes key) (hok : NoError x.2) : Changed key (historyOf mid outcomes) := by
  rw [List.zip_map_right] at hx
  obtain ⟨⟨c, o⟩, hpair, rfl⟩ := List.mem_map.mp hx
  have htold : ToldReply c.2 o.1 o.2 := (List.forall₂_iff_zip.mp htolds).2 hpair
  obtain ⟨doc, guard, hreq⟩ := changes_request.mp hc
  have hentry : (c.1.request, o.1) ∈ historyOf mid outcomes := List.mem_map_of_mem hpair
  rw [show c.1.request = _ from hreq] at hentry
  rcases (told_noError htold).mp hok with ⟨v, n, ho⟩ | ⟨n, ho⟩
  · obtain ⟨_, _, hstep⟩ := run_step hrun _ hentry
    exact absurd ho ((step_reply hstep).2 _ _ _ rfl v n)
  · rw [ho] at hentry
    exact ⟨doc, guard, n, hentry⟩

/-- Whatever touched the document was not refused. -/
theorem touched_told (htolds : List.Forall₂ (fun c o => ToldReply c.2 o.1 o.2) mid outcomes)
    (ht : Touched key (historyOf mid outcomes)) :
    ∃ x ∈ mid.zip (outcomes.map Prod.snd), x.1.1.Changes key ∧ ¬ Refused x.2 := by
  obtain ⟨doc, guard, reply, hne, hmem⟩ : ∃ doc guard reply, (∀ why, reply ≠ .refused why) ∧
      (Request.change key doc guard, reply) ∈ historyOf mid outcomes := by
    rcases ht with ⟨doc, guard, n, hmem⟩ | ⟨doc, guard, e, hmem⟩
    · exact ⟨doc, guard, .done n, by simp, hmem⟩
    · exact ⟨doc, guard, .failed e, by simp, hmem⟩
  obtain ⟨⟨c, o⟩, hpair, heq⟩ := List.mem_map.mp hmem
  obtain ⟨hreq, rfl⟩ := Prod.mk.inj heq
  have htold : ToldReply c.2 o.1 o.2 := (List.forall₂_iff_zip.mp htolds).2 hpair
  refine ⟨(c, o.2), ?_, changes_request.mpr ⟨doc, guard, hreq⟩, fun hr => ?_⟩
  · rw [List.zip_map_right]
    exact List.mem_map_of_mem (f := Prod.map id Prod.snd) hpair
  · obtain ⟨why, ho⟩ := (told_refused htold).mp hr
    exact hne why ho

end History

/-- **No update is lost.** A `get` is told of a document, and later this document is set, replaced
    or removed with the CAS it was told, whatever else was done by anyone in between. If that is
    told of no error, the document was still the one the `get` was told of, and every other call to
    change it was told of an error. If it is refused, another call to change it was not. -/
theorem no_lost_update (hnew : StringNewInverse) (hsrv : srv.Documented) (hkey : key ≠ "")
    (hget : srv.serve h ((DocCall.get key).invoke (.function i)) s =
      some ([{ fn := .function i, args := [.undefined, .object fields] }], s₁))
    (hcas : fields.lookup NameMap.cas = some (Cas.createCas n)) (hn : n < 2 ^ 64)
    (hmid : ∀ c ∈ mid, c.1.Usable) (hrun : srv.session h mid s₁ = some (tolds, s₂))
    (hu : call.Usable) (hc : call.Changes key) (hcall : call.cas = some n)
    (hlast : srv.serve h (call.invoke (.function j)) s₂ = some (told, s₃)) :
    (NoError told →
      (∃ v, fields.lookup NameMap.value = some v ∧ (srv.values s₂).docs key = some ⟨v, n⟩) ∧
      ∀ x ∈ mid.zip tolds, x.1.1.Changes key → ¬ NoError x.2) ∧
    (Refused told → ∃ x ∈ mid.zip tolds, x.1.1.Changes key ∧ ¬ Refused x.2) := by
  have hget_usable : (DocCall.get key).Usable := ⟨hkey, by simp [DocCall.cas], by simp⟩
  obtain ⟨reply, told₁, _, hserve, htold₁, hread⟩ := serve_step hnew hsrv hget_usable i h s
  cases hserve.symm.trans hget
  obtain ⟨hpos, v, hvalue, rfl⟩ := get_found hsrv hread htold₁ rfl hcas hn
  obtain ⟨outcomes, _, hsession, htolds, hsteps⟩ := session_steps hnew hsrv hmid h s₁
  cases hsession.symm.trans hrun
  obtain ⟨reply, told₂, _, hserve, htold₂, hchange⟩ := serve_step hnew hsrv hu j h s₂
  cases hserve.symm.trans hlast
  obtain ⟨doc, hrequest⟩ := request_guarded hu hc hcall hpos
  rw [hrequest] at hchange
  obtain ⟨hdone, hrefused⟩ := guarded_change hread hsteps hchange
  constructor
  · intro hok
    obtain ⟨n', rfl⟩ : ∃ n', reply = .done n' := by
      rcases (told_noError htold₂).mp hok with ⟨v', n', rfl⟩ | hdone
      · exact absurd rfl ((step_reply hchange).2 _ _ _ rfl v' n')
      · exact hdone
    obtain ⟨hsame, hnot⟩ := hdone n' rfl
    exact ⟨⟨v, hvalue, hsame⟩, fun x hx hx' hnone => hnot (told_changed htolds hsteps hx hx' hnone)⟩
  · intro href
    obtain ⟨why, rfl⟩ := (told_refused htold₂).mp href
    exact touched_told htolds (hrefused why rfl)

end Swap

end Proof

section Example

open Versioned

/-- What a server can store: every CAS has 64 bits and is not 0. -/
abbrev Bucket : Type := { m : State Bytes Document // ∀ n ∈ m.used, 0 < n ∧ n < 2 ^ 64 }

/-- A CAS nobody has. -/
def Bucket.next (s : Bucket) : Nat := s.val.used.sum + 1

theorem Bucket.next_fresh (s : Bucket) : s.next ∉ s.val.used := by
  intro hmem
  have hle := List.le_sum_of_mem hmem
  unfold Bucket.next at hle
  omega

/-- A server that does nothing but what is documented, and has no memory left when it has no CAS
    left. -/
def plainServer : DocumentServer Bucket where
  answer call s :=
    match documentRequest call with
    | none => ({ err := 1, key := [], resp := .unlock }, s)
    | some r =>
      if hnext : s.next < 2 ^ 64 then
        (responseTo r (perform s.next s.val r).1, ⟨(perform (E := Int) s.next s.val r).2, by
          intro n hn
          rcases perform_used _ _ _ n hn with rfl | hn
          · exact ⟨Nat.succ_pos _, hnext⟩
          · exact s.property n hn⟩)
      else (responseTo r (.failed 2), s)
  store s := s.val

/-- What the server does with a request, while it has a CAS left. -/
theorem Proof.plainServer_answer {call : LcbCall} {r : Request Bytes Document} {s : Bucket}
    (hr : documentRequest call = some r) (hnext : s.next < 2 ^ 64) :
    (plainServer.answer call s).1 = responseTo r (perform s.next s.val r).1 ∧
      (plainServer.answer call s).2.val = (perform (E := Int) s.next s.val r).2 := by
  unfold plainServer
  simp only [hr, dif_pos hnext, and_self]

theorem Proof.plainServer_documented : plainServer.Documented where
  cas s := s.property
  serves call r s hr := by
    by_cases hnext : s.next < 2 ^ 64
    · obtain ⟨hanswer, hstore⟩ := Proof.plainServer_answer hr hnext
      refine ⟨_, ?_, hanswer, ?_⟩
      · show Step s.val r _ (plainServer.answer call s).2.val
        rw [hstore]
        exact .performed s.next_fresh
      · intro code hcode
        cases r with
        | read k =>
          cases hd : s.val.docs k <;> rw [perform, hd] at hcode <;> cases hcode
        | change k doc guard =>
          rw [perform_change] at hcode
          cases hg : guard.refusal (s.val.docs k) <;> rw [hg] at hcode <;> cases hcode
    · have hanswer : plainServer.answer call s = (responseTo r (.failed 2), s) := by
        unfold plainServer
        simp only [hr, dif_neg hnext]
      rw [hanswer]
      refine ⟨_, .lost 2, rfl, ?_⟩
      rintro code ⟨⟩
      unfold Failure
      decide

open scoped SmallRuntime

def noDocuments : Bucket := ⟨⟨fun _ => none, [], nofun⟩, nofun⟩

/-- A number that is set, and asked for. -/
def setThenGet : List (DocCall × Nat) :=
  [(.store .set "k" (.number (.fin 5)) none, 1), (.get "k", 2)]

theorem Proof.session_refines_set : ∃ outcomes s',
    plainServer.session [] setThenGet noDocuments = some (outcomes.map Prod.snd, s') ∧
      List.Forall₂ (fun c o => ToldReply c.2 o.1 o.2) setThenGet outcomes ∧
      Run (plainServer.values noDocuments) (Proof.historyOf setThenGet outcomes)
        (plainServer.values s') := by
  have hset : (DocCall.store .set "k" (.number (.fin 5)) none).Usable := by
    refine ⟨by decide, by simp [DocCall.cas], ?_⟩
    rintro op key v cas ⟨⟩
    exact ⟨rfl, .number 5, by simp, fun _ => SmallRuntime.five⟩
  have hget : (DocCall.get "k").Usable := ⟨by decide, by simp [DocCall.cas], by simp⟩
  have hcalls : ∀ c ∈ setThenGet, c.1.Usable := by
    intro c hc
    rcases List.mem_cons.mp hc with rfl | hc
    · exact hset
    · rw [List.mem_singleton.mp hc]
      exact hget
  obtain ⟨outcomes, s', hsession, htold, hrun, _⟩ := Proof.session_refines
    SmallRuntime.stringNewInverse Proof.plainServer_documented hcalls [] noDocuments
  exact ⟨outcomes, s', hsession, htold, hrun⟩

/-- The document `x` under `k`, with the CAS 5. -/
def oneDocument : Bucket where
  val :=
    { docs := fun key => if key = utf8 "k" then some ⟨⟨4, utf8 "x"⟩, 5⟩ else none
      used := [5]
      known := by
        intro key e he
        split at he
        · cases he
          exact List.mem_singleton.mpr rfl
        · cases he }
  property := by decide

/-- What a `get` is told of it. -/
def oneResult : Props := ResponseInfo.fields none (.get 4 5 (utf8 "x"))

/-- The `get` that is told of it. -/
theorem Proof.one_got : ∃ s₁, plainServer.serve [] ((DocCall.get "k").invoke (.function 1))
    oneDocument = some ([{ fn := .function 1, args := [.undefined, .object oneResult] }], s₁) := by
  obtain ⟨lcb, hr, hserve⟩ :=
    Proof.get_called (show "k" ≠ "" by decide) 1 [] plainServer oneDocument
  obtain ⟨hanswer, _⟩ := Proof.plainServer_answer (s := oneDocument) hr (by decide)
  have hdocs : oneDocument.val.docs (utf8 "k") = some ⟨⟨4, utf8 "x"⟩, 5⟩ := by
    simp [oneDocument]
  have hfound : (perform (E := Int) oneDocument.next oneDocument.val (.read (utf8 "k"))).1 =
      .found ⟨4, utf8 "x"⟩ 5 := by
    show lookedUp (oneDocument.val.docs (utf8 "k")) = _
    rw [hdocs]
    rfl
  rw [hfound] at hanswer
  refine ⟨(plainServer.answer lcb oneDocument).2, ?_⟩
  rw [hserve (by rw [hanswer]; rfl), hanswer]
  rfl

/-- The code of the error a callback was told of, 0 for none. -/
def toldCode (told : List Invocation) : Option Int :=
  told.head?.bind fun call =>
    match Command.arg call.args 0 with
    | .undefined => some LCB_SUCCESS
    | .error _ [(_, .number (.fin code))] => some code.num
    | _ => none

theorem Proof.toldCode_told {i : Nat} {reply : Reply Value Int} {told : List Invocation}
    {code : Int} (h : ToldReply i reply told) (hc : toldCode told = some code) :
    ∃ fields, told = [{ fn := .function i, args := [errorObject code, .object fields] }] := by
  obtain ⟨fields, _, rfl⟩ := h
  have hstatus (status : Int) : toldCode
      [{ fn := .function i, args := [errorObject status, .object fields] }] = some status := by
    by_cases hs : status = LCB_SUCCESS
    · subst hs
      rfl
    · have herror : errorObject status = lcbError status := if_pos hs
      rw [herror]
      exact congrArg some (Rat.num_intCast status)
  rw [hstatus] at hc
  cases hc
  exact ⟨fields, rfl⟩

/-- Somebody stores another document under its name. -/
def meddling (op : StorageOp) : List (DocCall × Nat) := [(.store op "k" (.number (.fin 5)) none, 2)]

def removeFive : DocCall := .remove "k" (some 5)

/-- A `get` of the document, a store by somebody else, and the removal with the CAS the `get` was
    told. -/
def swapCalls (op : StorageOp) : List (DocCall × Nat) :=
  (.get "k", 1) :: (meddling op ++ [(removeFive, 3)])

theorem Proof.removeFive_usable : removeFive.Usable := by
  refine ⟨by decide, ?_, by simp [removeFive]⟩
  rintro n ⟨⟩
  decide

/-- The three calls one after the other. -/
theorem Proof.swap_steps {op : StorageOp} (hop : op = .set ∨ op = .add) {codes : List (Option Int)}
    {code : Int} (htest : (plainServer.session [] (swapCalls op) oneDocument).map
      (fun r => r.1.map toldCode) = some (codes ++ [some code])) :
    ∃ s₁ tolds s₂ fields s₃,
      plainServer.serve [] ((DocCall.get "k").invoke (.function 1)) oneDocument =
          some ([{ fn := .function 1, args := [.undefined, .object oneResult] }], s₁) ∧
        (∀ c ∈ meddling op, c.1.Usable) ∧
        plainServer.session [] (meddling op) s₁ = some (tolds, s₂) ∧
        plainServer.serve [] (removeFive.invoke (.function 3)) s₂ =
          some ([{ fn := .function 3, args := [errorObject code, .object fields] }], s₃) := by
  obtain ⟨s₁, hget⟩ := Proof.one_got
  have hstore : ∀ c ∈ meddling op, c.1.Usable := by
    intro c hc
    rw [List.mem_singleton.mp hc]
    refine ⟨show "k" ≠ "" by decide, by simp [DocCall.cas], ?_⟩
    rintro op key v cas ⟨⟩
    refine ⟨?_, .number 5, by simp, fun _ => SmallRuntime.five⟩
    rcases hop with rfl | rfl <;> rfl
  obtain ⟨reply, told₁, s₂, hserve, _, _⟩ := Proof.serve_step SmallRuntime.stringNewInverse
    Proof.plainServer_documented (hstore _ List.mem_cons_self) 2 [] s₁
  obtain ⟨reply', told, s₃, hlast, htold, _⟩ := Proof.serve_step SmallRuntime.stringNewInverse
    Proof.plainServer_documented Proof.removeFive_usable 3 [] s₂
  have hmid : plainServer.session [] (meddling op) s₁ = some ([told₁], s₂) := by
    simp only [meddling, DocumentServer.session, hserve, Option.bind_eq_bind, Option.bind_some]
  have hall : (plainServer.session [] (swapCalls op) oneDocument).map (fun r => r.1.map toldCode) =
      some ([some 0, toldCode told₁] ++ [toldCode told]) := by
    simp only [swapCalls, meddling, List.cons_append, List.nil_append, DocumentServer.session, hget,
      hserve, hlast, Option.bind_eq_bind, Option.bind_some]
    rfl
  rw [hall] at htest
  have hcode := List.append_inj_right' (Option.some.inj htest) rfl
  obtain ⟨fields, rfl⟩ := Proof.toldCode_told htold (List.cons.inj hcode).1
  exact ⟨s₁, _, s₂, fields, s₃, hget, hstore, hmid, hlast⟩

/-- Somebody else's `set` in between, and the removal is refused; an `add` in between is told of an
    error, and the removal is done. -/
theorem Proof.no_lost_update_remove :
    (∃ s₁ tolds s₂ told s₃,
      plainServer.serve [] ((DocCall.get "k").invoke (.function 1)) oneDocument =
          some ([{ fn := .function 1, args := [.undefined, .object oneResult] }], s₁) ∧
        plainServer.session [] (meddling .set) s₁ = some (tolds, s₂) ∧
        plainServer.serve [] (removeFive.invoke (.function 3)) s₂ = some (told, s₃) ∧
        Proof.Refused told ∧
        ∃ x ∈ (meddling .set).zip tolds, x.1.1.Changes "k" ∧ ¬ Proof.Refused x.2) ∧
    ∃ s₁ tolds s₂ told s₃,
      plainServer.serve [] ((DocCall.get "k").invoke (.function 1)) oneDocument =
          some ([{ fn := .function 1, args := [.undefined, .object oneResult] }], s₁) ∧
        plainServer.session [] (meddling .add) s₁ = some (tolds, s₂) ∧
        plainServer.serve [] (removeFive.invoke (.function 3)) s₂ = some (told, s₃) ∧
        Proof.NoError told ∧
        (∃ v, oneResult.lookup NameMap.value = some v ∧
          (plainServer.values s₂).docs "k" = some ⟨v, 5⟩) ∧
        ∀ x ∈ (meddling .add).zip tolds, x.1.1.Changes "k" → ¬ Proof.NoError x.2 := by
  have hname : "k" ≠ "" := by decide
  have hcas : oneResult.lookup NameMap.cas = some (Cas.createCas 5) := rfl
  have hchanges : removeFive.Changes "k" := ⟨rfl, by simp [removeFive]⟩
  constructor
  · have htest : (plainServer.session [] (swapCalls .set) oneDocument).map
        (fun r => r.1.map toldCode) = some ([some 0, some 0] ++ [some LCB_KEY_EEXISTS]) := by
      decide +kernel
    obtain ⟨s₁, tolds, s₂, fields, s₃, hget, hu, hmid, hlast⟩ := Proof.swap_steps (.inl rfl) htest
    have hrefused : Proof.Refused
        [{ fn := .function 3, args := [errorObject LCB_KEY_EEXISTS, .object fields] }] :=
      ⟨_, _, LCB_KEY_EEXISTS, .inr rfl, rfl⟩
    have hboth := Proof.no_lost_update SmallRuntime.stringNewInverse Proof.plainServer_documented
      hname hget hcas (by decide) hu hmid Proof.removeFive_usable hchanges rfl hlast
    exact ⟨s₁, tolds, s₂, _, s₃, hget, hmid, hlast, hrefused, hboth.2 hrefused⟩
  · have htest : (plainServer.session [] (swapCalls .add) oneDocument).map
        (fun r => r.1.map toldCode) = some ([some 0, some 12] ++ [some LCB_SUCCESS]) := by
      decide +kernel
    obtain ⟨s₁, tolds, s₂, fields, s₃, hget, hu, hmid, hlast⟩ := Proof.swap_steps (.inr rfl) htest
    have hdone : Proof.NoError
        [{ fn := .function 3, args := [errorObject LCB_SUCCESS, .object fields] }] := ⟨_, _, rfl⟩
    have hboth := Proof.no_lost_update SmallRuntime.stringNewInverse Proof.plainServer_documented
      hname hget hcas (by decide) hu hmid Proof.removeFive_usable hchanges rfl hlast
    obtain ⟨hsame, hothers⟩ := hboth.1 hdone
    exact ⟨s₁, tolds, s₂, _, s₃, hget, hmid, hlast, hdone, hsame, hothers⟩

end Example

end Couchnode
