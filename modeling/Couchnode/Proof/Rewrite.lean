import Couchnode.Proof.Calls
import Couchnode.Proof.Machine
import Couchnode.Proof.Progress

/-!
# Storing a value with the metadata of the old one

The result object of a `get` may be passed to `set` as its options: `_mergeParams` copies its
CAS and its flags and drops its value. The store handler picks the format of the new value
from the value, and then overwrites the flags of that format with the flags it was given: the
bytes are in the new format and the flags say the old one.

`store_finishes_one` runs the store handler for one key all the way to the command libcouchbase
reads. `rewrite_iff` is exactly when a later `get` returns the new value.
-/

set_option autoImplicit false

namespace Couchnode

namespace Proof

open Command ValueFormat Prog

variable [Runtime]

/-! ## One key through the store handler -/

section Store

variable {s : PState} {op : StorageOp} {name : String} {kp : Props} {f : Nat} {h : Heap}
  {kOptions : StoreOptions} {v : Value} {flags : Nat} {bs : List UInt8}

/-- The header of a one-key store without global options. -/
def oneKeyHeader (name : String) (kp : Props) (f : Nat) : Header StoreOptions where
  apiArgs := [.object [(name, .object kp)], .null, .function f]
  callback := { v := some (.function f), status := .found }
  keys := { keys := some (.object [(name, .object kp)]), kcollType := .objectKeys, ncmds := 1 }
  globalOptions := {}

def oneKeyStart (h : Heap) : PState where
  heap := h
  commands := { addr := .stack, ncmds := 1, cmds := .single .stack, cmdlist := .ofCmds .stack }

/-- `initialize` takes such a request. -/
theorem initialize_one : initializeCommand (StoreCommand op)
    [.object [(name, .object kp)], .null, .function f] (Command.start h) =
      .done (oneKeyHeader name kp f) (oneKeyStart h) := rfl

/-- What the handler needs of the key's options. -/
structure OneKey (kp : Props) (kOptions : StoreOptions) (v : Value) : Prop where
  hashkey : ParamSlot.parseAll (some (.object kp)) hashkeySlots { v := none } = .ok { v := none }
  parsed : ParamSlot.parseAll (some (.object kp)) StoreOptions.specs {} = .ok kOptions
  format : kOptions.format.isFound = false
  value : kOptions.value.v = some v

/-- What the specification makes of the one key. -/
theorem requests_one (op : StorageOp) (f : Nat) (hname : utf8 name ≠ [])
    (hk : OneKey kp kOptions v) (henc : encoding v .auto = some (flags, bs)) :
    Command.requests (.store op) (oneKeyHeader name kp f) =
      some [{ LcbReq.keyed (some (utf8 name)) none (StoreCommand.nums op kOptions {} flags {}) with
        bytes := some bs }] := by
  have hhash : hashkeyText (StoreCommand op) (oneKeyHeader name kp f) (some (.object kp)) =
      some none := by
    unfold hashkeyText
    rw [hk.hashkey]
    rfl
  have hkey : backedString (StoreCommand op).getDefaultString (some (.string name)) =
      some (utf8 name) := by
    unfold backedString
    simp [Value.isString, Value.toName, hname]
  have hformat : StoreCommand.format kOptions {} = some .auto := by
    unfold StoreCommand.format StoreCommand.specObj
    rw [hk.format]
    rfl
  have hrequest : StoreCommand.request op {} (some (utf8 name)) none (some (.object kp)) =
      some { LcbReq.keyed (some (utf8 name)) none (StoreCommand.nums op kOptions {} flags {}) with
        bytes := some bs } := by
    unfold StoreCommand.request
    simp only [Option.bind_eq_bind, Option.bind_some, hk.parsed, Parsed.toOption, hformat,
      hk.value, henc]
    rfl
  have hitem : itemRequest (StoreCommand op) (StoreCommand.request op) (oneKeyHeader name kp f)
      (some (.string name), some (.object kp)) =
        some { LcbReq.keyed (some (utf8 name)) none (StoreCommand.nums op kOptions {} flags {}) with
          bytes := some bs } := by
    unfold itemRequest
    simp only [hhash, hkey, Option.bind_eq_bind, Option.bind_some]
    exact hrequest
  have hprop : (Value.object [(name, .object kp)]).getProperty name = .object kp := by
    simp [Value.getProperty, Value.entries]
  show [(some (Value.string name), some ((Value.object [(name, .object kp)]).getProperty name))].mapM
    (itemRequest (StoreCommand op) (StoreCommand.request op) (oneKeyHeader name kp f)) = _
  rw [hprop, List.mapM_cons, hitem]
  rfl

/-- **A one-key store is accepted, and asks for its value in its own format.** -/
theorem store_finishes_one (op : StorageOp) (f : Nat) (h : Heap) (hname : utf8 name ≠ [])
    (hk : OneKey kp kOptions v) (henc : encoding v .auto = some (flags, bs)) :
    ∃ hd st, accept (StoreCommand op) [.object [(name, .object kp)], .null, .function f]
        (Command.start h) = .done hd st ∧
      (withCookie (.store op) hd st).execute (StoreCommand op) st.heap =
        some { entry := .store, cmds :=
          [{ LcbReq.keyed (some (utf8 name)) none (StoreCommand.nums op kOptions {} flags {}) with
            bytes := some bs }] } := by
  have hh : header (StoreCommand op) [.object [(name, .object kp)], .null, .function f] =
      some (oneKeyHeader name kp f) := initialize_header (initialize_one (h := h))
  have hcall : Command.call (.store op) [.object [(name, .object kp)], .null, .function f] =
      some { entry := .store, cmds :=
        [{ LcbReq.keyed (some (utf8 name)) none (StoreCommand.nums op kOptions {} flags {}) with
          bytes := some bs }] } := by
    unfold Command.call
    simp only [Option.bind_eq_bind, Option.bind_eq_some_iff]
    exact ⟨oneKeyHeader name kp f, hh, _, requests_one op f hname hk henc, rfl⟩
  obtain ⟨hd, st, hacc⟩ := call_accepted (byKey_store op) hcall h
  exact ⟨hd, st, hacc, (execute_call (byKey_store op) hacc).trans hcall⟩

end Store

/-! ## The old metadata on a new value -/

/-- When the new value decodes under the flags of the old document. -/
def Rewritable (v : Value) (flags : Nat) : Prop :=
  match v with
  | .string _ => flags = Spec.utf8.flags
  | .buffer bs =>
    flags ≠ Spec.utf8.flags ∧
      (flags = Spec.json.flags →
        ∃ e, Runtime.jsonParse (Runtime.stringNew bs) = .error e)
  | v => flags = Spec.json.flags ∧ JsonInverse v

section Rewrite

open ResponseInfo (fields)
open ParamSlot (parseAll_object parseSpecs_ok parseSpecs_none field_ok)

variable {v : Value} {flags format : Nat} {stored : List UInt8}

omit [Runtime] in
/-- The flags of a document fit their slot. -/
theorem parse_flags (hflags : flags < 2 ^ 32) (s : Slot Int) :
    uint32 (ResponseInfo.number flags) s = .ok { v := flags, status := .found } := by
  have htrunc : Num.truncate (flags : Rat) = flags := by
    simp [Num.truncate]
  have hint : (Num.fin flags).integerValue = flags := by
    simp only [Num.integerValue, htrunc]
    split_ifs <;> omega
  have hcast : IntType.uint32.cast flags = flags := by
    simp only [IntType.cast]
    omega
  have hback : IntType.uint32.toInt64 flags = flags := by
    apply Int.bmod_eq_of_le
    · omega
    · omega
  unfold uint32 NumericSlot.parseValue
  rw [if_neg (by simp [maybeSetFalse, ResponseInfo.number, Value.isUndefined, Value.isNull,
    Value.isFalse])]
  simp only [ResponseInfo.number, hint, hcast, hback, ne_eq, not_true_eq_false, if_false]

omit [Runtime] in
/-- The CAS of a document fits its slot. -/
theorem parse_cas (cas : Nat) (s : Slot Nat) :
    CasSlot.parseValue (Cas.createCas cas) s =
      .ok { v := Cas.ofBytes (Cas.toBytes cas), status := .found } := by
  have hlen := Cas.toBytes_length cas
  have hget : Cas.getCas (Cas.createCas cas) = .cas (Cas.ofBytes (Cas.toBytes cas)) := by
    unfold Cas.getCas Cas.createCas
    simp only [Value.isObject, Value.externalArrayDataLength, Value.externalArray, hlen,
      ExternalArrayType.elementSize, List.take_of_length_le (Nat.le_of_eq hlen)]
    rfl
  unfold CasSlot.parseValue
  rw [hget]
  rfl

/-- The options of the store: the new value with the CAS and the flags of the old document. -/
def rewriteOptions (v : Value) (flags cas : Nat) : Props :=
  [(NameMap.value, v), (NameMap.cas, Cas.createCas cas), (NameMap.flags, ResponseInfo.number flags)]

/-- `_mergeParams` keeps everything of the result but its value. -/
theorem mergeInto_get (keyOption : Option Value) (cas : Nat) (bytes : List UInt8) :
    Connection.mergeInto [(NameMap.value, v)]
      (.object (fields keyOption (.get flags cas bytes))) =
        rewriteOptions v flags cas := rfl

theorem rewrite_oneKey (hflags : flags < 2 ^ 32) (cas : Nat) :
    OneKey (rewriteOptions v flags cas)
      { cas := { v := Cas.ofBytes (Cas.toBytes cas), status := .found }
        value := { v := some v, status := .found }
        flags := { v := flags, status := .found } } v where
  hashkey := rfl
  parsed := by
    unfold rewriteOptions StoreOptions.specs
    rw [parseAll_object, parseSpecs_ok rfl (field_ok (parse_cas cas _)), parseSpecs_none rfl, parseSpecs_none rfl,
      parseSpecs_ok (show _ = some v from rfl) (field_ok rfl), parseSpecs_ok rfl (field_ok (parse_flags hflags _))]
    unfold ParamSlot.parseSpecs
    rfl
  format := rfl
  value := rfl

/-- What `decode` does under flags that do not say UTF-8. -/
theorem decode_other (hne : flags ≠ Spec.utf8.flags) :
    decode stored flags =
      if flags = Spec.json.flags then
        match Runtime.jsonParse (Runtime.stringNew stored) with
        | .ok w => w
        | .error _ => .buffer stored
      else .buffer stored := by
  unfold decode
  rw [if_neg hne]
  split
  · next hraw => rw [if_neg (by rw [hraw]; decide)]
  · rfl

/-- A string comes back under the flags of a string only. -/
theorem decode_string (hnew : StringNewInverse) (hnot : JsonNotIdentity) {t : String} :
    decode (utf8 t) flags = .string t ↔ flags = Spec.utf8.flags := by
  by_cases hutf8 : flags = Spec.utf8.flags
  · refine ⟨fun _ => hutf8, fun _ => ?_⟩
    unfold decode
    rw [if_pos hutf8, hnew t]
  · refine ⟨fun h => ?_, fun h => absurd h hutf8⟩
    rw [decode_other hutf8, hnew t] at h
    split at h
    · cases hparse : Runtime.jsonParse t with
      | ok w =>
        rw [hparse] at h
        exact absurd (hparse.trans (congrArg _ h)) (hnot t)
      | error e =>
        rw [hparse] at h
        cases h
    · cases h

/-- A `Buffer` comes back unless its bytes are read as a string or as JSON. -/
theorem decode_buffer (hbuf : JsonNoBuffer) :
    decode stored flags = .buffer stored ↔
      flags ≠ Spec.utf8.flags ∧
        (flags = Spec.json.flags →
          ∃ e, Runtime.jsonParse (Runtime.stringNew stored) = .error e) := by
  by_cases hutf8 : flags = Spec.utf8.flags
  · refine ⟨fun h => ?_, fun h => absurd hutf8 h.1⟩
    unfold decode at h
    rw [if_pos hutf8] at h
    cases h
  · rw [decode_other hutf8]
    by_cases hjson : flags = Spec.json.flags
    · rw [if_pos hjson]
      cases hparse : Runtime.jsonParse (Runtime.stringNew stored) with
      | ok w =>
        refine ⟨fun h => absurd (hparse.trans (congrArg _ h)) (hbuf _ _), ?_⟩
        rintro ⟨_, h⟩
        obtain ⟨e, he⟩ := h hjson
        cases he
      | error e => exact ⟨fun _ => ⟨hutf8, fun _ => ⟨e, rfl⟩⟩, fun _ => rfl⟩
    · rw [if_neg hjson]
      exact ⟨fun _ => ⟨hutf8, fun h => absurd h hjson⟩, fun _ => rfl⟩

/-- A value written as JSON comes back under the flags of JSON, if parsing gives it back. -/
theorem decode_json (hnew : StringNewInverse) (hs : ∀ t, v ≠ .string t) (hb : ∀ bs, v ≠ .buffer bs)
    (henc : encodingAs v .json = some (format, stored)) :
    decode stored flags = v ↔ flags = Spec.json.flags ∧ JsonInverse v := by
  obtain ⟨t, htext, hstored⟩ : ∃ t, Runtime.jsonStringify v = .ok (.string t) ∧
      stored = utf8 t := by
    unfold encodingAs at henc
    cases hret : Runtime.jsonStringify v with
    | error e =>
      rw [hret] at henc
      cases henc
    | ok ret =>
      rw [hret] at henc
      cases ret with
      | string t =>
        cases henc
        exact ⟨t, rfl, rfl⟩
      | _ => cases henc
  -- the text is the one that was stored
  have hinverse : JsonInverse v ↔ Runtime.jsonParse t = .ok v := by
    unfold JsonInverse
    rw [htext]
    constructor
    · rintro ⟨_, hs, hp⟩
      cases hs
      exact hp
    · intro hp
      exact ⟨t, rfl, hp⟩
  subst hstored
  rw [hinverse]
  by_cases hutf8 : flags = Spec.utf8.flags
  · refine ⟨fun h => ?_, fun h => ?_⟩
    · unfold decode at h
      rw [if_pos hutf8] at h
      exact absurd h.symm (hs _)
    · exact absurd (hutf8.symm.trans h.1) (by decide)
  · rw [decode_other hutf8, hnew t]
    by_cases hjson : flags = Spec.json.flags
    · rw [if_pos hjson]
      cases hparse : Runtime.jsonParse t with
      | ok w => exact ⟨fun h => ⟨hjson, congrArg _ h⟩, fun h => Except.ok.inj h.2⟩
      | error e => exact ⟨fun h => absurd h.symm (hb _), fun h => (by cases h.2)⟩
    · rw [if_neg hjson]
      exact ⟨fun h => absurd h.symm (hb _), fun h => absurd h.1 hjson⟩

/-- What a get without options makes of the stored bytes under the old flags. -/
theorem decode_rewritten (hnew : StringNewInverse) (hnot : JsonNotIdentity) (hbuf : JsonNoBuffer)
    (henc : encoding v .auto = some (format, stored)) :
    decode stored flags = v ↔ Rewritable v flags := by
  cases v with
  | string t =>
    cases henc
    exact decode_string hnew hnot
  | buffer bs =>
    obtain ⟨_, hbs⟩ : bs ≠ [] ∧ some (Spec.raw.flags, bs) = some (format, stored) := by
      change (if bs = [] then none else some (Spec.raw.flags, bs)) = _ at henc
      split at henc
      · cases henc
      · next hne => exact ⟨hne, henc⟩
    cases hbs
    exact decode_buffer hbuf
  | undefined | null | bool b => cases henc
  | number _ | function _ | array _ | object _ | error _ _ | external _ _ =>
    exact decode_json hnew (fun t h => by cases h) (fun bs h => by cases h) henc

/-- No durability is asked for: the callback is the application's own. -/
theorem rewrite_callback {key callback : Value} {cas : Nat} :
    Connection.interceptEndure key (.object [(key.toName, .object (rewriteOptions v flags cas))])
      (.object []) false callback = .user callback := by
  have hdurable : Durable (.object (rewriteOptions v flags cas)) = false := rfl
  rw [interceptEndure_key, hdurable, Bool.and_false]
  rfl

/-- **When a rewrite keeps the new value.** For every document, every result a get gave for it
    and every value `encode` takes, `set` with that result as its options is accepted and stores
    one command under the key; a later get without a format gives the new value exactly when
    the new value decodes under the old flags. The key is not `__proto__`, which is no property
    an object can be given. -/
theorem rewrite_iff (hnew : StringNewInverse) (hnot : JsonNotIdentity) (hbuf : JsonNoBuffer)
    {key : Value} (hkey : utf8 key.toName ≠ []) (_hproto : key.toName ≠ "__proto__")
    (hflags : flags < 2 ^ 32) (cas : Nat) (keyOption : Option Value) (bytes : List UInt8)
    {s s' : PState} {e : Encoded} (ok : BufOk s.heap s.bufs)
    (henc : encode (some v) .auto s = .done e s') (f : Nat) (h : Heap) :
    let result := Value.object (fields keyOption (.get flags cas bytes))
    let call := Mutation.set.invoke [key, v, result, .function f]
    call.callback = .user (.function f) ∧
    ∃ hd st, ∃ req : LcbReq, ∃ stored,
      accept call.target.cls (call.args ++ [.function f]) (Command.start h) = .done hd st ∧
      (withCookie call.target hd st).execute call.target.cls st.heap =
        some { entry := .store, cmds := [req] } ∧
      req.key = some (utf8 key.toName) ∧ req.bytes = some stored ∧
      ∀ cas', (fields none (.get req.nums.flags cas' stored)).lookup NameMap.value =
        some v ↔ Rewritable v flags := by
  intro result call
  obtain ⟨stored, henc, _⟩ := encode_reads ok henc
  obtain ⟨hd, st, hacc, hexec⟩ := store_finishes_one .set f h hkey
    (rewrite_oneKey hflags cas) henc
  have hmerge : Connection.mergeParams key [(NameMap.value, v)] result =
      [(key.toName, .object (rewriteOptions v flags cas))] :=
    congrArg (fun ps => [(key.toName, Value.object ps)]) (mergeInto_get keyOption cas bytes)
  have hcallback : call.callback = .user (.function f) := by
    show Connection.interceptEndure key
      (.object (Connection.mergeParams key [(NameMap.value, v)] result)) _ _ _ = _
    rw [hmerge]
    exact rewrite_callback
  refine ⟨hcallback, hd, st, _, stored, ?_, hexec, rfl, rfl, ?_⟩
  · show accept _ [.object (Connection.mergeParams key [(NameMap.value, v)] result), .null,
      .function f] _ = _
    rw [hmerge]
    exact hacc
  · intro cas'
    rw [← decode_rewritten hnew hnot hbuf henc]
    exact Option.some_inj

end Rewrite

end Proof

section Example

open scoped SmallRuntime

/-- The string `x` set with the result of a get of a string. -/
theorem Proof.rewrite_iff_utf8 :
    let result := Value.object (ResponseInfo.fields none (.get 4 7 (utf8 "old")))
    let call := Mutation.set.invoke [.string "k", .string "x", result, .function 1]
    ∃ hd st, ∃ req : LcbReq, ∃ stored,
      Command.accept call.target.cls (call.args ++ [.function 1]) (Command.start []) = .done hd st ∧
      req.bytes = some stored ∧
      (ResponseInfo.fields none (.get req.nums.flags 8 stored)).lookup NameMap.value =
        some (.string "x") := by
  intro result call
  have hempty : Proof.BufOk (Command.start []).heap (Command.start []).bufs := .empty []
  obtain ⟨e, s', henc⟩ := Proof.encode_finishes hempty
    (show ValueFormat.encoding (.string "x") .auto = some (4, utf8 "x") from rfl)
  obtain ⟨_, hd, st, req, stored, hacc, _, _, hbytes, hget⟩ :=
    Proof.rewrite_iff SmallRuntime.stringNewInverse SmallRuntime.jsonNotIdentity
      SmallRuntime.jsonNoBuffer (show utf8 (Value.string "k").toName ≠ [] by decide)
      (show (Value.string "k").toName ≠ "__proto__" by decide) (show 4 < 2 ^ 32 by decide) 7 none
      (utf8 "old") hempty henc 1 []
  exact ⟨hd, st, req, stored, hacc, hbytes, (hget 8).mpr rfl⟩

/-- The string `x` set with the result of a get of a JSON document: the later get gives a
    `Buffer`. -/
theorem Proof.rewrite_string_over_json :
    let result := Value.object (ResponseInfo.fields none (.get 0 7 (utf8 "5")))
    let call := Mutation.set.invoke [.string "k", .string "x", result, .function 1]
    ∃ hd st, ∃ req : LcbReq, ∃ stored,
      Command.accept call.target.cls (call.args ++ [.function 1]) (Command.start []) = .done hd st ∧
      (Command.withCookie call.target hd st).execute call.target.cls st.heap =
        some { entry := .store, cmds := [req] } ∧
      req.bytes = some stored ∧
      (ResponseInfo.fields none (.get req.nums.flags 8 stored)).lookup NameMap.value =
        some (.buffer (utf8 "x")) := by
  intro result call
  let req : LcbReq :=
    { LcbReq.keyed (some (utf8 "k")) none { cas := 7, operation := some .set } with
      bytes := some (utf8 "x") }
  obtain ⟨hd, st, hacc, htest⟩ := Outcome.exists_of_check
    (Command.accept call.target.cls (call.args ++ [.function 1]) (Command.start []))
    (fun hd st => (Command.withCookie call.target hd st).execute call.target.cls st.heap =
      some { entry := .store, cmds := [req] }) (by decide +kernel)
  refine ⟨hd, st, req, utf8 "x", hacc, of_decide_eq_true htest, rfl, ?_⟩
  have hdecode : ValueFormat.decode (utf8 "x") 0 = .buffer (utf8 "x") := by
    rw [Proof.decode_other (by decide), SmallRuntime.stringNewInverse]
    rfl
  exact congrArg some hdecode

end Example

end Couchnode
