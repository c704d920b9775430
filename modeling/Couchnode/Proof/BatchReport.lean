import Couchnode.Proof.Batch
import Couchnode.Proof.Reuse

/-!
# What a call for many keys is told

A spooled call for many keys is told once, with an object of results; a call for one key is told
of that key. `batch_told` puts the two side by side: given the same answer, the results have under
the name of the key what the call for one is told, with the error on it. Beyond what the answer
holds, that takes that both calls read a value by the same format, which they look up in a table
of the cookie each has of its own (`pair_option`).
-/

set_option autoImplicit false

namespace Couchnode

namespace Proof

open Prog Command ParamSlot Connection ValueFormat

variable [Runtime]

/-! ## A call and its answers -/

section Answers

variable {k : Kind} {args : List Value} {h : Heap} {hd : Header k.Opts} {st : PState}
  {rs : List Cookie.Response} {req : LcbReq}

/-- A key is asked for under its own text. -/
theorem item_key (hk : ByKey k) {name : String} {params : Option Value}
    (hreq : itemRequest k.cls k.request hd (some (.string name), params) = some req) :
    req.key = some (utf8 name) ∧ utf8 name ≠ [] := by
  unfold itemRequest at hreq
  simp only [Option.bind_eq_bind, Option.bind_eq_some_iff] at hreq
  obtain ⟨hashkey, _, key, hkey, hreq⟩ := hreq
  rw [byKey_noDefault hk] at hkey
  obtain ⟨rfl, hne⟩ := backedString_text hkey
  exact ⟨request_key hk hreq, hne⟩

/-- **A full set of answers to the keys of an accepted call**, in any order. -/
theorem named_answered {α : Type} {xs : List α} {nameOf : α → String} {params : α → Option Value}
    (hplain : k.cls.cookieKind = .plain) (hacc : accept k.cls args (Command.start h) = .done hd st)
    (hitems : callItems args = xs.map fun x => (some (.string (nameOf x)), params x))
    (hrs : (rs.map (·.key)).Perm (xs.map fun x => utf8 (nameOf x))) :
    let c := (ofState hd st).createCookie k.cls
    Answered c (rs.map fun r => c.responseInfo r) fun m => Cookie.receiveAll (rs.take m) c := by
  have hby := plain_byKey hplain
  obtain ⟨lcb, hcall⟩ := accepted_call hby hacc
  obtain ⟨hd', _, hreqs⟩ := call_requests hcall
  have hreqs : List.Forall₂ (fun item req => itemRequest k.cls k.request hd' item = some req)
    (callItems args) lcb.cmds := hreqs
  rw [hitems, List.forall₂_map_left_iff] at hreqs
  obtain ⟨hcmds, hne⟩ := keys_of_forall₂ (hreqs.imp fun _ _ hreq => item_key hby hreq)
  have hlen : xs.length = (KeysInfo.setKeys (arg args 0)).ncmds := by
    rw [← items_length]
    show xs.length = (callItems args).length
    rw [hitems, List.length_map]
  have hreplies : RepliesTo lcb rs := by
    unfold RepliesTo
    rw [hcmds]
    simpa [List.map_map, Function.comp_def] using hrs.map some
  exact (asked_answered hplain hacc hlen hcmds hne hreplies).2.2

theorem createCookie_keyOptions (hplain : k.cls.cookieKind = .plain) :
    ((ofState hd st).createCookie k.cls).keyOptions = st.cookieKeyOptions := by
  unfold Command.createCookie
  rw [hplain]
  show ((ofState hd st).initCookie _).keyOptions = _
  unfold Command.initCookie Cookie.setCallback
  dsimp only
  split <;> rfl

end Answers

/-! ## The formats of the two cookies -/

section Formats

variable {p : Pair} {args : List Value} {h : Heap} {hd : Header p.kind.Opts} {st : PState}

/-- A class whose handler notes nothing has no formats for its cookie. -/
theorem quiet_accepted {O : Type} {cls : CommandClass O} {hd : Header O} {st : PState}
    (hquiet : ∀ hd ck params ix, Quiet (cls.handleSingle hd ck params ix))
    (hacc : accept cls args (Command.start h) = .done hd st) : st.cookieKeyOptions = none := by
  have hall : Quiet (accept cls args) := by
    apply Leaves.bind (quiet_initializeCommand _ _)
    intro hd
    refine Leaves.bind ?_ fun _ => .ret _
    rw [process_each]
    refine .each (fun ix item => ?_) 0 _
    apply Leaves.bind (quiet_processHashkey _ _ _)
    intro hashkey
    apply Leaves.bind (quiet_getBufBackedString _ _ _)
    intro key
    exact hquiet _ _ _ _
  exact (Prod.mk.inj (hall _ _ _ hacc)).2

theorem quiet_unlock (hd : Header UnlockOptions) (ck : CommandKey) (params : Option Value)
    (ix : Nat) : Quiet (UnlockCommand.handleSingle hd ck params ix) := by
  unfold UnlockCommand.handleSingle
  cases params with
  | none => exact quiet_fail _
  | some v =>
    apply Leaves.bind (quiet_liftParsed _)
    intro own
    apply Leaves.ite
    · intro _
      exact quiet_fail _
    · intro _
      apply Leaves.bind (notes_noMemory.getAt ix)
      intro p
      exact .bind (notes_noMemory.assign p _) fun _ => notes_noMemory.assign p _

theorem quiet_delete (hd : Header UnlockOptions) (ck : CommandKey) (params : Option Value)
    (ix : Nat) : Quiet (DeleteCommand.handleSingle hd ck params ix) := by
  unfold DeleteCommand.handleSingle
  apply Leaves.bind (quiet_liftParsed _)
  intro own
  apply Leaves.bind (notes_noMemory.getAt ix)
  intro p
  exact .bind (notes_noMemory.assign p _) fun _ => notes_noMemory.assign p _

/-- Only a get has formats for its cookie. -/
theorem other_keyOptions (hp : p ≠ .get ∧ p ≠ .lock ∧ p ≠ .observe)
    (hacc : accept p.kind.cls args (Command.start h) = .done hd st) :
    st.cookieKeyOptions = none := by
  cases p with
  | get => exact absurd rfl hp.1
  | lock => exact absurd rfl hp.2.1
  | observe => exact absurd rfl hp.2.2
  | unlock => exact quiet_accepted quiet_unlock hacc
  | remove => exact quiet_accepted quiet_delete hacc
  | set | add | replace | append | prepend => exact (store_accepted_notes hacc).2

theorem specOf_get (hp : p = .get ∨ p = .lock) (args : List Value)
    (item : Option Value × Option Value) :
    specOf p.kind args item = specAt (GetCommand.globals args) item := by
  rcases hp with rfl | rfl <;> rfl

/-- The format a get has noted for one of its keys. -/
theorem get_option (hp : p = .get ∨ p = .lock)
    (hacc : accept p.kind.cls args (Command.start h) = .done hd st)
    (hvalid : ∀ item ∈ callItems args, specOf p.kind args item ≠ .invalid)
    {item : Option Value × Option Value} (hi : item ∈ callItems args)
    (hproto : inheritedProperty (nameOf item) = none) :
    tableOption st.cookieKeyOptions (nameOf item) =
      if specAt (GetCommand.globals args) item ≠ .auto then
        some (.number (.fin (specAt (GetCommand.globals args) item).toInt))
      else none := by
  have hk : p.kind = .get ∨ p.kind = .lock := by
    rcases hp with rfl | rfl
    · exact .inl rfl
    · exact .inr rfl
  have hplain : p.kind.cls.cookieKind = .plain := by rcases hp with rfl | rfl <;> rfl
  rw [← createCookie_keyOptions hplain, get_cookie hk hacc hvalid,
    tableOption_kept (fun _ ho hname => same_options ho hi hname) hi, hproto, ite_self]

omit [Runtime] in
/-- With nothing to win over them, options of the key and options of the call are one format. -/
theorem documentedSpec_swap (o : GetOptions) :
    GetCommand.documentedSpec {} o = GetCommand.documentedSpec o {} := by
  unfold GetCommand.documentedSpec effective
  cases o.format.isFound <;> rfl

end Formats

/-! ## The two forms -/

section Forms

variable {p : Pair} {kv : KeyOptions} {g : Props} {callback callback₁ : Value} {i j : Nat}
  {h h₁ : Heap} {hd hd₁ : Header p.kind.Opts} {st st₁ : PState} {e : String × Props}
  {rs : List Cookie.Response} {r : Cookie.Response}

/-- The arguments of the native call. -/
abbrev nativeArgs (call : NativeCall) (i : Nat) : List Value := call.args ++ [.function i]

/-- The formats of the keys of a get are formats. -/
def Formatted (p : Pair) (kv : KeyOptions) : Prop :=
  p = .get ∨ p = .lock → ∀ e ∈ kv,
    GetCommand.documentedSpec {} (GetCommand.own (some (.object e.2))) ≠ .invalid

theorem many_args (p : Pair) (kv options callback : Value) (i : Nat) :
    nativeArgs (p.many kv options callback) i = [kv, multiOptions options, .function i] := by
  cases p <;> rfl

theorem many_items (hkv : KeyOptions.Proper p kv) :
    callItems (nativeArgs (p.many kv.toValue (.object g) callback) i) =
      kv.map fun e => (some (.string e.1), some (.object e.2)) := by
  rw [many_args]
  exact items_kv hkv.keys

theorem one_items (p : Pair) (key : String) (ps : Props) (callback : Value) (i : Nat) :
    ∃ params, callItems (nativeArgs (p.one key (.object ps) callback) i) =
      [(some (.string key), params)] := by
  by_cases hp : p = .get ∨ p = .lock
  · rcases hp with rfl | rfl <;> exact ⟨none, rfl⟩
  · obtain ⟨_, hkeys, _⟩ := one_args (not_or.mp hp) key ps callback i
    unfold callItems
    rw [hkeys]
    exact ⟨_, items_one key _⟩

/-- The format a call for many has for one of its keys. -/
theorem many_spec (hnd : (Assoc.keys g).Nodup) (hg : ∀ name ∈ Assoc.keys g, name ∈ endureNames)
    (item : Option Value × Option Value) :
    specAt (GetCommand.globals (nativeArgs (p.many kv.toValue (.object g) callback) i)) item =
      GetCommand.documentedSpec {} (GetCommand.own item.2) := by
  have hglob : GetCommand.globals (nativeArgs (p.many kv.toValue (.object g) callback) i) = {} := by
    rw [many_args]
    show (parseAll (some (multiOptions (.object g))) GetOptions.specs {}).toOption.getD {} = {}
    rw [(bare_multi hnd hg).parse named_get]
    rfl
  unfold specAt
  rw [hglob]

/-- And the one a get has for its only key. -/
theorem one_spec (hp : p = .get ∨ p = .lock) (key : String) (ps : Props) :
    specAt (GetCommand.globals (nativeArgs (p.one key (.object ps) callback) j))
        (some (.string key), none) =
      GetCommand.documentedSpec {} (GetCommand.own (some (.object ps))) := by
  rw [documentedSpec_swap]
  rcases hp with rfl | rfl <;> rfl

/-- **Both cookies read the key by the same format.** -/
theorem pair_option (hp : p ≠ .observe) (hkv : KeyOptions.Proper p kv)
    (hnd : (Assoc.keys g).Nodup) (hg : ∀ name ∈ Assoc.keys g, name ∈ endureNames)
    (hformats : Formatted p kv)
    (hacc : accept p.kind.cls (nativeArgs (p.many kv.toValue (.object g) callback) i)
      (Command.start h) = .done hd st)
    (hacc₁ : accept p.kind.cls (nativeArgs (p.one e.1 (.object e.2) callback₁) j)
      (Command.start h₁) = .done hd₁ st₁)
    (he : e ∈ kv) (hproto : inheritedProperty e.1 = none) :
    tableOption st.cookieKeyOptions e.1 = tableOption st₁.cookieKeyOptions e.1 := by
  by_cases hget : p = .get ∨ p = .lock
  · have hmem : (some (Value.string e.1), some (Value.object e.2)) ∈
        callItems (nativeArgs (p.many kv.toValue (.object g) callback) i) := by
      rw [many_items hkv]
      exact List.mem_map_of_mem he
    have hmem₁ : (some (Value.string e.1), none) ∈
        callItems (nativeArgs (p.one e.1 (.object e.2) callback₁) j) := by
      rcases hget with rfl | rfl <;> exact List.mem_singleton.mpr rfl
    have hspec := hformats hget
    have hvalid : ∀ item ∈ callItems (nativeArgs (p.many kv.toValue (.object g) callback) i),
        specOf p.kind (nativeArgs (p.many kv.toValue (.object g) callback) i) item ≠ .invalid := by
      intro item hi
      rw [specOf_get hget, many_spec hnd hg]
      rw [many_items hkv] at hi
      obtain ⟨e', he', rfl⟩ := List.mem_map.mp hi
      exact hspec e' he'
    have hvalid₁ : ∀ item ∈ callItems (nativeArgs (p.one e.1 (.object e.2) callback₁) j),
        specOf p.kind (nativeArgs (p.one e.1 (.object e.2) callback₁) j) item ≠ .invalid := by
      intro item hi
      have hitem : item = (some (.string e.1), none) := by
        rcases hget with rfl | rfl <;> exact List.mem_singleton.mp hi
      rw [specOf_get hget, hitem, one_spec hget]
      exact hspec e he
    have hmany := get_option hget hacc hvalid hmem hproto
    have hone := get_option hget hacc₁ hvalid₁ hmem₁ hproto
    rw [many_spec hnd hg] at hmany
    rw [one_spec hget] at hone
    exact hmany.trans hone.symm
  · have hother : p ≠ .get ∧ p ≠ .lock ∧ p ≠ .observe := by
      obtain ⟨hg, hl⟩ := not_or.mp hget
      exact ⟨hg, hl, hp⟩
    rw [other_keyOptions hother hacc, other_keyOptions hother hacc₁]

/-- Two cookies that read a key by the same format make the same of an answer to it. -/
theorem responseInfo_same {c c' : Cookie}
    (hname : tableOption c.keyOptions (Runtime.stringNew r.key) =
      tableOption c'.keyOptions (Runtime.stringNew r.key)) :
    c.responseInfo r = c'.responseInfo r := by
  have hoption (c : Cookie) : c.getKeyOption (.string (Runtime.stringNew r.key)) =
      tableOption c.keyOptions (Runtime.stringNew r.key) := by
    unfold Cookie.getKeyOption tableOption
    cases c.keyOptions <;> rfl
  unfold Cookie.responseInfo
  rw [hoption, hoption, hname]

/-- One answer among those to different keys: no later one is to the same key. -/
theorem answer_split (hnew : StringNewInverse) {names : List String} (hnd : names.Nodup)
    (hrs : (rs.map (·.key)).Perm (names.map utf8)) (hr : r ∈ rs) :
    ∃ pre post, rs = pre ++ r :: post ∧
      ∀ later ∈ post, Runtime.stringNew later.key ≠ Runtime.stringNew r.key := by
  have hnodup : (rs.map fun r => Runtime.stringNew r.key).Nodup := by
    have hperm := hrs.map Runtime.stringNew
    have hback : (names.map utf8).map Runtime.stringNew = names := by
      simp [List.map_map, Function.comp_def, show ∀ s, Runtime.stringNew (utf8 s) = s from hnew]
    rw [hback, List.map_map] at hperm
    exact hperm.nodup_iff.mpr hnd
  obtain ⟨pre, post, rfl⟩ := List.append_of_mem hr
  refine ⟨pre, post, rfl, fun later hl hsame => ?_⟩
  rw [List.map_append, List.map_cons, List.nodup_append] at hnodup
  refine (List.nodup_cons.mp hnodup.2.1).1 ?_
  rw [← hsame]
  exact List.mem_map_of_mem hl

/-- The results have under a name what a call for that key alone was told, with its error. -/
def ReportedAs (results : Props) (name : String) (fn : Value) (calls : List Invocation) : Prop :=
  ∃ err fields entry, calls = [{ fn := fn, args := [err, .object fields] }] ∧
    results.lookup name = some (.object entry) ∧
    entry.lookup NameMap.err = (if err.isUndefined then none else some err) ∧
    ∀ other, other ≠ NameMap.err → entry.lookup other = fields.lookup other

/-- **One key of the results**, next to a call for that key. -/
theorem entry_reported {c : Cookie} {results : Props} {pre post : List Cookie.Response}
    (hplain : p.kind.cls.cookieKind = .plain)
    (hres : Results (rs.map fun r => c.responseInfo r) results) (hsplit : rs = pre ++ r :: post)
    (hlast : ∀ later ∈ post, Runtime.stringNew later.key ≠ Runtime.stringNew r.key)
    (hacc₁ : accept p.kind.cls (nativeArgs (p.one e.1 (.object e.2) callback₁) j)
      (Command.start h₁) = .done hd₁ st₁)
    (hmode₁ : ((ofState hd₁ st₁).createCookie p.kind.cls).cbType = .single)
    (hkey : r.key = utf8 e.1) (hname : Runtime.stringNew r.key = e.1)
    (hoption : tableOption c.keyOptions e.1 = tableOption st₁.cookieKeyOptions e.1) :
    ReportedAs results e.1 (.function j)
      (Cookie.receiveAll [r] ((ofState hd₁ st₁).createCookie p.kind.cls)).calls := by
  obtain ⟨params, hone⟩ := one_items p e.1 e.2 callback₁ j
  have hitems : callItems (nativeArgs (p.one e.1 (.object e.2) callback₁) j) =
      [e].map fun x => (some (.string x.1), params) := hone
  have hrs : ([r].map (·.key)).Perm ([e].map fun x => utf8 x.1) := by
    rw [List.map_singleton, List.map_singleton, hkey]
  have hans := named_answered hplain hacc₁ hitems hrs
  obtain ⟨entry, hlook, herr, hother⟩ := results_last hres hsplit hlast
  have hsame : c.responseInfo r = ((ofState hd₁ st₁).createCookie p.kind.cls).responseInfo r := by
    refine responseInfo_same ?_
    rw [hname, hoption, createCookie_keyOptions hplain]
  have hcalls : (Cookie.receiveAll [r] ((ofState hd₁ st₁).createCookie p.kind.cls)).calls =
      [singleCall ((ofState hd₁ st₁).createCookie p.kind.cls) (c.responseInfo r)] := by
    rw [hsame]
    exact hans.single hmode₁ 1 (Nat.le_refl 1)
  rw [hname] at hlook
  refine ⟨errorObject (c.responseInfo r).status, (c.responseInfo r).payload.getD [], entry, ?_,
    hlook, ?_, hother⟩
  · rw [hcalls, singleCall, responseInfo_payload, (createCookie_callback hacc₁).1, lastArg_append]
    rfl
  · rw [herr, errorObject_undefined]
    unfold failed
    by_cases hok : (c.responseInfo r).status = LCB_SUCCESS
    · simp [hok]
    · simp [hok]

/-- **The results of a call for many keys are what the calls for one key are told.** When
    libcouchbase has answered every key, a spooled call for many, which asked for no format that is
    none, has called its callback once, without an error if no key failed, and with results for
    exactly its keys. What they have for a key is what a call for that key alone is told by the same
    answer, with its error. -/
theorem batch_told (hnew : StringNewInverse) (hp : p ≠ .observe) (hkv : KeyOptions.Proper p kv)
    (hnd : (Assoc.keys g).Nodup) (hg : ∀ name ∈ Assoc.keys g, name ∈ endureNames)
    (hformats : Formatted p kv)
    (hacc : accept p.kind.cls (nativeArgs (p.many kv.toValue (.object g) callback) i)
      (Command.start h) = .done hd st)
    (hmode : ((ofState hd st).createCookie p.kind.cls).cbType = .spooled)
    (hrs : (rs.map (·.key)).Perm (kv.map fun e => utf8 e.1)) :
    let c := (ofState hd st).createCookie p.kind.cls
    ∃ err results,
      (Cookie.receiveAll rs c).calls =
          [{ fn := .function i, args := [err, .object results] }] ∧
        (err.isUndefined = true ↔ ∀ r ∈ rs, (c.responseInfo r).status = LCB_SUCCESS) ∧
        (∀ name, name ∈ Assoc.keys results ↔ name ∈ kv.map Prod.fst) ∧
        ∀ e ∈ kv, inheritedProperty e.1 = none → ∀ r ∈ rs, r.key = utf8 e.1 →
          ∀ {callback₁ : Value} {j : Nat} {h₁ : Heap} {hd₁ : Header p.kind.Opts} {st₁ : PState},
            accept p.kind.cls (nativeArgs (p.one e.1 (.object e.2) callback₁) j)
              (Command.start h₁) = .done hd₁ st₁ →
            ((ofState hd₁ st₁).createCookie p.kind.cls).cbType = .single →
            ReportedAs results e.1 (.function j)
              (Cookie.receiveAll [r] ((ofState hd₁ st₁).createCookie p.kind.cls)).calls := by
  intro c
  have hplain : p.kind.cls.cookieKind = .plain := by
    cases p with
    | observe => exact absurd rfl hp
    | _ => rfl
  have hans := named_answered hplain hacc (many_items hkv) hrs
  obtain ⟨results, hres, hcalls⟩ := hans.spooled hmode
  rw [List.length_map, List.take_length] at hcalls
  refine ⟨if (rs.map fun r => c.responseInfo r).any failed then Cookie.checkResults else .undefined,
    results, ?_, ?_, ?_, ?_⟩
  · rw [hcalls, finalCall, (createCookie_callback hacc).1, lastArg_append]
  · cases hany : (rs.map fun r => c.responseInfo r).any failed with
    | false =>
      refine ⟨fun _ r hr => ?_, fun _ => rfl⟩
      have hok := List.any_eq_false.mp hany _ (List.mem_map_of_mem hr)
      simpa [failed] using hok
    | true =>
      obtain ⟨info, hinfo, hfail⟩ := List.any_eq_true.mp hany
      obtain ⟨r, hr, rfl⟩ := List.mem_map.mp hinfo
      refine ⟨fun herr => ?_, fun hall => ?_⟩
      · cases herr
      · rw [failed, hall r hr] at hfail
        exact absurd hfail (by decide)
  · intro name
    rw [hres.names name]
    constructor
    · rintro ⟨info, hinfo, rfl⟩
      obtain ⟨r, hr, rfl⟩ := List.mem_map.mp hinfo
      obtain ⟨e, he, hkey⟩ := List.mem_map.mp (hrs.mem_iff.mp (List.mem_map_of_mem hr))
      rw [responseInfo_keyName, ← hkey, hnew e.1]
      exact List.mem_map_of_mem he
    · intro hmem
      obtain ⟨e, he, rfl⟩ := List.mem_map.mp hmem
      obtain ⟨r, hr, hkey⟩ := List.mem_map.mp (hrs.mem_iff.mpr (List.mem_map.mpr ⟨e, he, rfl⟩))
      refine ⟨_, List.mem_map_of_mem hr, ?_⟩
      rw [responseInfo_keyName, hkey, hnew e.1]
  · intro e he hproto r hr hkey callback₁ j h₁ hd₁ st₁ hacc₁ hmode₁
    have hname : Runtime.stringNew r.key = e.1 := by
      rw [hkey]
      exact hnew e.1
    obtain ⟨pre, post, hsplit, hlast⟩ := answer_split hnew hkv.keys
      (by rw [List.map_map]; exact hrs) hr
    refine entry_reported hplain hres hsplit hlast hacc₁ hmode₁ hkey hname ?_
    rw [createCookie_keyOptions hplain]
    exact pair_option hp hkv hnd hg hformats hacc hacc₁ he hproto

end Forms

end Proof

section Example

open scoped SmallRuntime

/-- One of two documents is found. -/
def twoReplies : List Cookie.Response :=
  [{ err := 0, key := utf8 "b", resp := .get 0 8 [50] },
    { err := 13, key := utf8 "a", resp := .get 0 0 [] }]

/-- The results of `getMulti` have for `a` what `get("a")` is told. -/
theorem Proof.batch_told_get : ∃ hd st hd₁ st₁ err results,
    Command.accept Kind.get.cls
        (Proof.nativeArgs (Pair.get.many getTwo.toValue (.object []) .null) 1)
        (Command.start []) = .done hd st ∧
      (Cookie.receiveAll twoReplies ((Command.ofState hd st).createCookie Kind.get.cls)).calls =
        [{ fn := .function 1, args := [err, .object results] }] ∧
      Proof.ReportedAs results "a" (.function 2)
        (Cookie.receiveAll [{ err := 13, key := utf8 "a", resp := .get 0 0 [] }]
          ((Command.ofState hd₁ st₁).createCookie Kind.get.cls)).calls := by
  obtain ⟨hd, st, hacc, hmode⟩ := Outcome.exists_of_check
    (Command.accept Kind.get.cls
      (Proof.nativeArgs (Pair.get.many getTwo.toValue (.object []) .null) 1) (Command.start []))
    (fun hd st => ((Command.ofState hd st).createCookie Kind.get.cls).cbType = .spooled)
    (by decide +kernel)
  obtain ⟨hd₁, st₁, hacc₁, hmode₁⟩ := Outcome.exists_of_check
    (Command.accept Kind.get.cls
      (Proof.nativeArgs (Pair.get.one "a" (.object [("locktime", .number (.fin 5))]) .null) 2)
      (Command.start []))
    (fun hd st => ((Command.ofState hd st).createCookie Kind.get.cls).cbType = .single)
    (by decide +kernel)
  have hkv : KeyOptions.Proper .get getTwo := by
    refine ⟨nofun, by decide, ?_, nofun⟩
    intro e he
    rcases List.mem_cons.mp he with rfl | he
    · decide
    · rw [List.mem_singleton.mp he]
      decide
  have hformats : Proof.Formatted .get getTwo := by
    intro _ e he
    rcases List.mem_cons.mp he with rfl | he
    · decide
    · rw [List.mem_singleton.mp he]
      decide
  have hp : Pair.get ≠ .observe := by decide
  have hrs : (twoReplies.map (·.key)).Perm (getTwo.map fun e => utf8 e.1) := List.Perm.swap _ _ _
  obtain ⟨err, results, hcalls, _, _, heach⟩ :=
    Proof.batch_told (g := []) SmallRuntime.stringNewInverse hp hkv List.nodup_nil
      (fun _ h => absurd h List.not_mem_nil) hformats hacc (of_decide_eq_true hmode) hrs
  exact ⟨hd, st, hd₁, st₁, err, results, hacc, hcalls,
    heach _ List.mem_cons_self (by decide) _ (.tail _ (.head _)) rfl hacc₁
      (of_decide_eq_true hmode₁)⟩

end Example

end Couchnode
