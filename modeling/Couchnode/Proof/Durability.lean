import Couchnode.Proof.Mutations

/-!
# The durability check covers what was mutated

A mutation with `persist_to` or `replicate_to` is followed by `endureMulti`. `Endured` says that
what is submitted over the life of the call is the keys that were mutated, each with its new CAS,
and that it is told whether they were removed.

There are four ways a call can go, from the mode of the cookie and the options the interceptor
found: no interceptor (`endured_user`), an interceptor that submits one key per response
(`endured_single`), one that submits all results at once (`endured_spooled`), and one that takes
a single result for an object of results (`endured_mistaken`). `endured_iff` puts them together:
it is exactly when the check covers the mutation.
-/

set_option autoImplicit false

namespace Couchnode

namespace Proof

open Command

variable [Runtime]

/-! ## What has to be checked -/

/-- What a mutated key has to be checked for. -/
def success (r : Cookie.Response) : Option (String × Value) :=
  if r.err = LCB_SUCCESS then
    r.resp.mutated.map fun cas => (Runtime.stringNew r.key, Cas.createCas cas)
  else none

/-- What is submitted to `endureMulti` covers exactly what was mutated. -/
structure Endured (m : Mutation) (subs : List EndureCall) (rs : List Cookie.Response) : Prop where
  covered : (subs.flatMap EndureCall.pairs).Perm (rs.filterMap success)
  isDelete : ∀ e ∈ subs,
    (Value.object e.options).getProperty NameMap.isDelete = .bool m.isRemoval

section Response

variable {r : Cookie.Response} {c : Cookie}

/-- The fields of the payload of a response. -/
def payload (r : Cookie.Response) : Props :=
  if r.err = LCB_SUCCESS then ResponseInfo.fields none r.resp else []

/-- What the cookie makes of a response to a mutation. -/
theorem responseInfo_mutated (h : r.resp.mutated.isSome = true) :
    c.responseInfo r = { status := r.err, payload := some (payload r), key := some r.key } := by
  obtain ⟨err, key, resp⟩ := r
  cases resp with
  | store | arithmetic | remove => rfl
  | _ => cases h

/-- The payload of a success has the CAS. -/
theorem payload_success (h : r.err = LCB_SUCCESS) {cas : Nat} (hm : r.resp.mutated = some cas) :
    (payload r).lookup NameMap.cas = some (Cas.createCas cas) := by
  unfold payload
  rw [if_pos h]
  obtain ⟨err, key, resp⟩ := r
  cases resp with
  | store | arithmetic | remove =>
    cases hm
    rfl
  | _ => cases hm

theorem success_of_ok (h : r.err = LCB_SUCCESS) (hm : r.resp.mutated.isSome = true) :
    ∃ cas, r.resp.mutated = some cas ∧
      success r = some (Runtime.stringNew r.key, Cas.createCas cas) := by
  obtain ⟨cas, hcas⟩ := Option.isSome_iff_exists.mp hm
  refine ⟨cas, hcas, ?_⟩
  rw [success, if_pos h, hcas]
  rfl

theorem success_of_failed (h : r.err ≠ LCB_SUCCESS) : success r = none := if_neg h

theorem errorObject_truthy (status : Int) :
    (errorObject status).truthy = decide (status ≠ LCB_SUCCESS) := by
  unfold errorObject
  by_cases h : status = LCB_SUCCESS
  · simp [h, Value.truthy]
  · simp [h, lcbError, CBExc.asValue, Value.truthy]

end Response

/-! ## The four ways a call can go -/

section Submissions

variable {m : Mutation} {key options user : Value} {d : Bool} {c : Cookie}
  {rs : List Cookie.Response}

/-- No mutation succeeded. -/
def AllFailed (rs : List Cookie.Response) : Prop := ∀ r ∈ rs, r.err ≠ LCB_SUCCESS

theorem success_nil (hm : ∀ r ∈ rs, r.resp.mutated.isSome = true) :
    rs.filterMap success = [] ↔ AllFailed rs := by
  rw [List.filterMap_eq_nil_iff]
  constructor
  · intro h r hr hok
    obtain ⟨_, _, hs⟩ := success_of_ok hok (hm r hr)
    rw [h r hr] at hs
    cases hs
  · intro h r hr
    exact success_of_failed (h r hr)

/-- The application's own callback submits nothing. -/
theorem endured_user (hm : ∀ r ∈ rs, r.resp.mutated.isSome = true) (calls : List Invocation) :
    Endured m ((Callback.user user).submissions calls) rs ↔ AllFailed rs := by
  have hnone : (Callback.user user).submissions calls = [] :=
    List.filterMap_eq_nil_iff.mpr fun _ _ => rfl
  rw [hnone, ← success_nil hm]
  constructor
  · intro h
    exact List.nil_perm.mp h.covered
  · intro h
    exact ⟨by rw [h]; rfl, fun e he => absurd he List.not_mem_nil⟩

/-- The interceptor on one call per response. -/
theorem submissions_single (hm : ∀ r ∈ rs, r.resp.mutated.isSome = true) (callback : Callback) :
    callback.submissions ((rs.map fun r => c.responseInfo r).map (singleCall c)) =
      rs.filterMap fun r => callback.submit (errorObject r.err) (.object (payload r)) := by
  unfold Callback.submissions
  rw [List.map_map, List.filterMap_map]
  refine List.filterMap_congr fun r hr => ?_
  show callback.submit (arg (singleCall c (c.responseInfo r)).args 0)
    (arg (singleCall c (c.responseInfo r)).args 1) = _
  rw [responseInfo_mutated (hm r hr)]
  rfl

theorem submit_one {err : Int} {results : Value}
    (hs : (options.getProperty NameMap.spooled).truthy = false) :
    (Callback.interceptor key options (endureOptions options d) user).submit (errorObject err)
        results =
      if err = LCB_SUCCESS then
        some { kv := [(key.toName, results)], options := endureOptions options d }
      else none := by
  simp only [Callback.submit, hs, errorObject_truthy]
  by_cases h : err = LCB_SUCCESS <;> simp [h]

theorem endureOptions_isDelete :
    (Value.object (endureOptions options d)).getProperty NameMap.isDelete = .bool d := rfl

/-- What single submissions cover: each success, but under the name of `key`. -/
theorem pairs_single (hm : ∀ r ∈ rs, r.resp.mutated.isSome = true) (eo : Props) :
    (rs.filterMap fun r => if r.err = LCB_SUCCESS then
        some ({ kv := [(key.toName, .object (payload r))], options := eo } : EndureCall)
      else none).flatMap EndureCall.pairs =
      rs.filterMap fun r => (success r).map fun p => (key.toName, p.2) := by
  rw [List.filterMap_eq_flatMap_toList, List.filterMap_eq_flatMap_toList, List.flatMap_assoc]
  refine List.flatMap_congr fun r hr => ?_
  by_cases hok : r.err = LCB_SUCCESS
  · obtain ⟨cas, hcas, hs⟩ := success_of_ok hok (hm r hr)
    rw [hs, if_pos hok]
    show [(key.toName, ((payload r).lookup NameMap.cas).getD .undefined)] = _
    rw [payload_success hok hcas]
    rfl
  · rw [success_of_failed hok, if_neg hok]
    rfl

/-- **One key per response**: what succeeded has to be called `key`, and the check has to know
    what was done to it. -/
theorem endured_single (hnew : StringNewInverse) (hm : ∀ r ∈ rs, r.resp.mutated.isSome = true)
    (hname : ∀ r ∈ rs, r.key = utf8 (Runtime.stringNew r.key))
    (hs : (options.getProperty NameMap.spooled).truthy = false) :
    Endured m ((Callback.interceptor key options (endureOptions options d) user).submissions
        ((rs.map fun r => c.responseInfo r).map (singleCall c))) rs ↔
      AllFailed rs ∨
        m.isRemoval = d ∧ ∀ r ∈ rs, r.err = LCB_SUCCESS → r.key = utf8 key.toName := by
  rw [submissions_single hm]
  simp only [submit_one hs]
  constructor
  · rintro ⟨hcov, hdel⟩
    rw [pairs_single hm] at hcov
    by_cases hall : AllFailed rs
    · exact .inl hall
    right
    -- some success was submitted, so the flag is right
    have hflag : m.isRemoval = d := by
      unfold AllFailed at hall
      push Not at hall
      obtain ⟨r, hr, hok⟩ := hall
      have hd := hdel _ (List.mem_filterMap.mpr ⟨r, hr, if_pos hok⟩)
      exact (Value.bool.inj (endureOptions_isDelete.symm.trans hd)).symm
    refine ⟨hflag, fun r hr hok => ?_⟩
    obtain ⟨cas, _, hsucc⟩ := success_of_ok hok (hm r hr)
    obtain ⟨r', _, hr'⟩ := List.mem_filterMap.mp
      (hcov.mem_iff.mpr (List.mem_filterMap.mpr ⟨r, hr, hsucc⟩))
    obtain ⟨p, _, hp⟩ := Option.map_eq_some_iff.mp hr'
    have hkey : key.toName = Runtime.stringNew r.key := (Prod.mk.inj hp).1
    rw [hkey]
    exact hname r hr
  · intro h
    refine ⟨?_, fun e he => ?_⟩
    · rw [pairs_single hm]
      refine .of_eq (List.filterMap_congr fun r hr => ?_)
      by_cases hok : r.err = LCB_SUCCESS
      · obtain ⟨cas, _, hsucc⟩ := success_of_ok hok (hm r hr)
        rcases h with hall | ⟨_, hkeys⟩
        · exact absurd hok (hall r hr)
        · rw [hsucc, hkeys r hr hok, hnew key.toName]
          rfl
      · rw [success_of_failed hok]
        rfl
    · obtain ⟨r, hr, he⟩ := List.mem_filterMap.mp he
      split at he
      · next hok =>
        cases he
        rcases h with hall | ⟨hflag, _⟩
        · exact absurd hok (hall r hr)
        · rw [hflag]
          exact endureOptions_isDelete
      · cases he

/-- The entry of a response in the results object, when no two have the same name. -/
theorem results_entry {results : Props} (hnd : (rs.map fun r => Runtime.stringNew r.key).Nodup)
    (hres : Results (rs.map fun r => c.responseInfo r) results) {r : Cookie.Response}
    (hr : r ∈ rs) :
    ∃ fields, results.lookup (Runtime.stringNew r.key) = some (.object fields) ∧
      fields.lookup NameMap.err =
        (if failed (c.responseInfo r) then some (errorObject (c.responseInfo r).status) else none) ∧
      ∀ name, name ≠ NameMap.err →
        fields.lookup name = ((c.responseInfo r).payload.getD []).lookup name := by
  obtain ⟨pre, post, rfl⟩ := List.append_of_mem hr
  refine results_last hres rfl fun later hl he => ?_
  -- no later response has the same key
  rw [List.map_append, List.map_cons] at hnd
  have hnot := (List.nodup_cons.mp (List.nodup_append.mp hnd).2.1).1
  exact hnot (List.mem_map.mpr ⟨later, hl, he⟩)

/-- What an object has under a name is what `Get` gives. -/
theorem getProperty_object {ps : Props} {name : String} {v : Value} (h : ps.lookup name = some v) :
    (Value.object ps).getProperty name = v := by
  unfold Value.getProperty
  simp only [Value.entries, h, Option.getD_some]

/-- The entry of a response has an error when the response failed. -/
theorem entry_error {fields : Props} {info : ResponseInfo}
    (herr : fields.lookup NameMap.err =
      if failed info then some (errorObject info.status) else none) :
    ((Value.object fields).getProperty NameMap.err).truthy = failed info := by
  unfold Value.getProperty
  simp only [Value.entries, herr]
  cases hfail : failed info with
  | true => exact (errorObject_truthy info.status).trans hfail
  | false => rfl

/-- The names of the results are those of the responses. -/
theorem results_names {results : Props} (hnd : (rs.map fun r => Runtime.stringNew r.key).Nodup)
    (hres : Results (rs.map fun r => c.responseInfo r) results) :
    (Assoc.keys results).Perm (rs.map fun r => Runtime.stringNew r.key) := by
  rw [List.perm_ext_iff_of_nodup hres.nodup hnd]
  intro name
  rw [hres.names name]
  simp only [List.mem_map, exists_exists_and_eq_and]
  constructor
  · rintro ⟨r, hr, rfl⟩
    exact ⟨r, hr, (responseInfo_keyName r).symm⟩
  · rintro ⟨r, hr, rfl⟩
    exact ⟨r, hr, (responseInfo_keyName r).symm⟩

/-- What the interceptor finds under a key of the results object. -/
theorem submitted_results {results : Props} (hm : ∀ r ∈ rs, r.resp.mutated.isSome = true)
    (hnd : (rs.map fun r => Runtime.stringNew r.key).Nodup)
    (hres : Results (rs.map fun r => c.responseInfo r) results) {r : Cookie.Response}
    (hr : r ∈ rs) : submitted (.object results) (Runtime.stringNew r.key) = success r := by
  obtain ⟨fields, hlook, herr, hother⟩ := results_entry hnd hres hr
  have hget : (Value.object results).getProperty (Runtime.stringNew r.key) = .object fields :=
    getProperty_object hlook
  have hfail : ((Value.object fields).getProperty NameMap.err).truthy =
      decide (r.err ≠ LCB_SUCCESS) := by
    rw [entry_error herr, responseInfo_mutated (hm r hr)]
    rfl
  have hcas : fields.lookup NameMap.cas = (payload r).lookup NameMap.cas := by
    rw [hother NameMap.cas (by decide), responseInfo_mutated (hm r hr)]
    rfl
  unfold submitted
  simp only [hget, hfail]
  by_cases hok : r.err = LCB_SUCCESS
  · obtain ⟨cas, hmutated, hsucc⟩ := success_of_ok hok (hm r hr)
    have hget : (Value.object fields).getProperty NameMap.cas = Cas.createCas cas :=
      getProperty_object (hcas.trans (payload_success hok hmutated))
    rw [hsucc, hget]
    simp [hok]
  · rw [success_of_failed hok]
    simp [hok]

/-- What a spooled interceptor submits is what succeeded. -/
theorem spooled_pairs {results : Props} (hm : ∀ r ∈ rs, r.resp.mutated.isSome = true)
    (hnd : (rs.map fun r => Runtime.stringNew r.key).Nodup)
    (hres : Results (rs.map fun r => c.responseInfo r) results) (eo : Props) :
    (EndureCall.pairs { kv := Connection.endureKv (.object results), options := eo }).Perm
      (rs.filterMap success) := by
  rw [endureKv_pairs (show (Value.object results).propertyNames.Nodup from hres.nodup)]
  refine ((results_names hnd hres).filterMap (submitted (.object results))).trans ?_
  rw [List.filterMap_map]
  exact .of_eq (List.filterMap_congr fun r hr => submitted_results hm hnd hres hr)

/-- **All results at once**: everything that succeeded is submitted, in one call. -/
theorem endured_spooled {results : Props} {anyFailed : Bool}
    (hm : ∀ r ∈ rs, r.resp.mutated.isSome = true)
    (hnd : (rs.map fun r => Runtime.stringNew r.key).Nodup)
    (hres : Results (rs.map fun r => c.responseInfo r) results)
    (hs : (options.getProperty NameMap.spooled).truthy = true) :
    Endured m ((Callback.interceptor key options (endureOptions options d) user).submissions
        [finalCall c results anyFailed]) rs ↔ m.isRemoval = d := by
  have hsubs : (Callback.interceptor key options (endureOptions options d) user).submissions
      [finalCall c results anyFailed] =
        [{ kv := Connection.endureKv (.object results), options := endureOptions options d }] := by
    simp only [Callback.submissions, Callback.submit, hs, if_true]
    rfl
  rw [hsubs]
  constructor
  · intro h
    have hd := h.isDelete _ List.mem_cons_self
    exact (Value.bool.inj (endureOptions_isDelete.symm.trans hd)).symm
  · intro hflag
    refine ⟨?_, fun e he => ?_⟩
    · rw [List.flatMap_singleton]
      exact spooled_pairs hm hnd hres _
    · rcases List.mem_singleton.mp he with rfl
      rw [hflag]
      exact endureOptions_isDelete

/-- A CAS object has nothing but its two elements. -/
theorem createCas_getProperty (cas : Nat) {name : String} (hname : name ∉ ["0", "1"]) :
    (Cas.createCas cas).getProperty name = .undefined := by
  have hlen := Cas.toBytes_length cas
  have hnames : (Cas.createCas cas).propertyNames = ["0", "1"] := by
    have h0 : Nat.repr 0 = "0" := by decide
    have h1 : Nat.repr 1 = "1" := by decide
    simp [Cas.createCas, Value.propertyNames, Value.entries, hlen, indexed, Value.elementsOf,
      ExternalArrayType.elementSize, h0, h1]
  have hnone : (Cas.createCas cas).entries.lookup name = none := by
    rw [List.lookup_eq_none_iff]
    intro p hp
    have hne : name ≠ p.1 := by
      rintro rfl
      exact hname (hnames ▸ List.mem_map_of_mem hp)
    simpa using hne
  rw [Value.getProperty, hnone]
  rfl

/-- No field of a single result has a CAS of its own. -/
theorem payload_fields {r : Cookie.Response} (hm : r.resp.mutated.isSome = true) :
    (Assoc.keys (payload r)).Nodup ∧
      ∀ p ∈ payload r, p.2.getProperty NameMap.cas = .undefined := by
  unfold payload
  split
  · obtain ⟨err, key, resp⟩ := r
    cases resp with
    | store cas | remove cas =>
      refine ⟨show [NameMap.cas].Nodup by decide, fun p hp => ?_⟩
      rw [List.mem_singleton.mp hp]
      exact createCas_getProperty cas (by decide)
    | arithmetic cas n =>
      refine ⟨show [NameMap.cas, NameMap.value].Nodup by decide, fun p hp => ?_⟩
      rcases List.mem_cons.mp hp with rfl | hp
      · exact createCas_getProperty cas (by decide)
      · rw [List.mem_singleton.mp hp]
        rfl
    | _ => cases hm
  · exact ⟨List.nodup_nil, fun p hp => absurd hp List.not_mem_nil⟩

/-- A single result has no results in it: nothing that is found there is a CAS. -/
theorem pairs_mistaken {r : Cookie.Response} (hm : r.resp.mutated.isSome = true) {eo : Props}
    {p : String × Value}
    (hp : p ∈ EndureCall.pairs { kv := Connection.endureKv (.object (payload r)), options := eo }) :
    r.err = LCB_SUCCESS ∧ p.2 = .undefined := by
  obtain ⟨hnd, hfields⟩ := payload_fields hm
  rw [endureKv_pairs (show (Value.object (payload r)).propertyNames.Nodup from hnd)] at hp
  obtain ⟨name, hname, hsub⟩ := List.mem_filterMap.mp hp
  refine ⟨?_, ?_⟩
  · by_contra hfail
    unfold payload at hname
    rw [if_neg hfail] at hname
    cases hname
  · unfold submitted at hsub
    simp only at hsub
    split at hsub
    · cases hsub
    · cases hsub
      show (((payload r).lookup name).getD .undefined).getProperty NameMap.cas = _
      cases hlook : (payload r).lookup name with
      | none => rfl
      | some v =>
        exact hfields (name, v) (Assoc.mem_of_lookup hlook)

/-- **A single result taken for an object of results**: only a failure is treated right. -/
theorem endured_mistaken (hm : ∀ r ∈ rs, r.resp.mutated.isSome = true)
    (hs : (options.getProperty NameMap.spooled).truthy = true) (hflag : m.isRemoval = d) :
    Endured m ((Callback.interceptor key options (endureOptions options d) user).submissions
        ((rs.map fun r => c.responseInfo r).map (singleCall c))) rs ↔ AllFailed rs := by
  have hsubmit (err : Int) (results : Value) :
      (Callback.interceptor key options (endureOptions options d) user).submit (errorObject err)
        results =
      some { kv := Connection.endureKv results, options := endureOptions options d } := by
    simp only [Callback.submit, hs, if_true]
  rw [submissions_single hm]
  simp only [hsubmit]
  constructor
  · intro h r hr hok
    obtain ⟨cas, _, hsucc⟩ := success_of_ok hok (hm r hr)
    obtain ⟨e, he, hp⟩ := List.mem_flatMap.mp
      (h.covered.mem_iff.mpr (List.mem_filterMap.mpr ⟨r, hr, hsucc⟩))
    obtain ⟨r', hr', he⟩ := List.mem_filterMap.mp he
    cases he
    cases (pairs_mistaken (hm r' hr') hp).2
  · intro hall
    refine ⟨?_, fun e he => ?_⟩
    · rw [(success_nil hm).mpr hall]
      refine .of_eq (List.flatMap_eq_nil_iff.mpr fun e he => ?_)
      obtain ⟨r, hr, he⟩ := List.mem_filterMap.mp he
      cases he
      rw [List.eq_nil_iff_forall_not_mem]
      exact fun p hp => hall r hr (pairs_mistaken (hm r hr) hp).1
    · obtain ⟨r, hr, he⟩ := List.mem_filterMap.mp he
      cases he
      rw [hflag]
      exact endureOptions_isDelete

end Submissions

/-! ## All of them -/

/-- When the check covers the mutation. A single call needs a truthy key and no `spooled`, or
    has to fail. A multi call has to be no removal, and what succeeds in one that is not spooled
    has to be called `null`. -/
def Coverable (m : Mutation) (subject : Value) (options : Props) (rs : List Cookie.Response) :
    Prop :=
  if m.isMulti then
    if multiSpooled options then m.isRemoval = false
    else AllFailed rs ∨
      m.isRemoval = false ∧ ∀ r ∈ rs, r.err = LCB_SUCCESS → r.key = utf8 "null"
  else AllFailed rs ∨
    subject.truthy = true ∧ ((Value.object options).getProperty NameMap.spooled).truthy = false

section Life

variable {m : Mutation} {subject value user : Value} {options : Props} {call : NativeCall}
  {f : Nat} {h : Heap} {hd : Header call.target.Opts} {st : PState} {lcb : LcbCall}
  {rs : List Cookie.Response}

theorem single_endured_iff (hnew : StringNewInverse) (hm : m.isMulti = false)
    (hnd : (Assoc.keys options).Nodup) (hdur : Durable (.object options) = true)
    (hcall : call = m.invoke (m.argList subject value (.object options) user))
    (hacc : accept call.target.cls (call.args ++ [.function f]) (Command.start h) = .done hd st)
    (hexec : (withCookie call.target hd st).execute call.target.cls st.heap = some lcb)
    (hrs : Replies lcb rs) :
    Endured m (call.callback.submissions
        (Cookie.receiveAll rs ((ofState hd st).createCookie call.target.cls)).calls) rs ↔
      AllFailed rs ∨ subject.truthy = true ∧
        ((Value.object options).getProperty NameMap.spooled).truthy = false := by
  have hk : Mutates call.target := hcall ▸ invoke_mutates
  obtain ⟨params, hsame, hargs, hcb⟩ := invoke_single subject value user hm hnd
  rw [← hcall] at hargs hcb
  have harg : arg (call.args ++ [.function f]) 0 = .object [(subject.toName, .object params)] := by
    rcases hargs with hargs | hargs <;> rw [hargs] <;> rfl
  have harg₁ : arg (call.args ++ [.function f]) 1 = .null ∨
      ∃ g, arg (call.args ++ [.function f]) 1 = .function g := by
    rcases hargs with hargs | hargs <;> rw [hargs]
    · exact .inl rfl
    · exact .inr ⟨f, rfl⟩
  obtain ⟨hperm, hname, hans⟩ := mutation_answered hnew hk hacc harg hexec hrs
  rw [(final_calls hans).1 (mode_single hk hacc harg₁), hcb, interceptEndure_key,
    hsame.durable, hdur, Bool.and_true, ← hsame NameMap.spooled (by decide)]
  cases htruthy : subject.truthy with
  | false =>
    simp only [Bool.false_eq_true, if_false, false_and, or_false]
    exact endured_user hrs.mutated _
  | true =>
    simp only [if_true, true_and]
    cases hs : ((Value.object params).getProperty NameMap.spooled).truthy with
    | true =>
      simp only [Bool.true_eq_false, or_false]
      exact endured_mistaken hrs.mutated hs rfl
    | false =>
      rw [endured_single hnew hrs.mutated hname hs]
      refine iff_of_true (.inr ⟨rfl, fun r hr _ => ?_⟩) (.inr rfl)
      have hmem := hperm.mem_iff.mp (List.mem_map_of_mem hr)
      rw [hname r hr, List.mem_singleton.mp hmem]

theorem multi_endured_iff (hnew : StringNewInverse) (hm : m.isMulti = true)
    (hnd : (Assoc.keys options).Nodup) (hdur : Durable (.object options) = true)
    {kv : Props} (hkv : (Assoc.keys kv).Nodup)
    (hcall : call = m.invoke (m.argList (.object kv) value (.object options) user))
    (hacc : accept call.target.cls (call.args ++ [.function f]) (Command.start h) = .done hd st)
    (hexec : (withCookie call.target hd st).execute call.target.cls st.heap = some lcb)
    (hrs : Replies lcb rs) :
    Endured m (call.callback.submissions
        (Cookie.receiveAll rs ((ofState hd st).createCookie call.target.cls)).calls) rs ↔
      if multiSpooled options then m.isRemoval = false
      else AllFailed rs ∨
        m.isRemoval = false ∧ ∀ r ∈ rs, r.err = LCB_SUCCESS → r.key = utf8 "null" := by
  have hk : Mutates call.target := hcall ▸ invoke_mutates
  obtain ⟨hargs, hcb⟩ := invoke_multi (.object kv) value (.object options) user hm
  obtain ⟨ps, hps, hdur', v, hv, hspooled⟩ := multiOptions_object hnd
  rw [← hcall, hps] at hargs hcb
  have harg : arg (call.args ++ [.function f]) 0 = .object kv := by rw [hargs]; rfl
  have harg₁ : arg (call.args ++ [.function f]) 1 = .object ps := by rw [hargs]; rfl
  have hs : ((Value.object ps).getProperty NameMap.spooled).truthy = multiSpooled options := by
    show ((ps.lookup NameMap.spooled).getD .undefined).truthy = _
    rw [hv]
    exact hspooled
  obtain ⟨hperm, hname, hans⟩ := mutation_answered hnew hk hacc harg hexec hrs
  obtain ⟨hsingle, hall⟩ := final_calls hans
  have hmode := mode_options (.inl hk) hacc harg₁ hv
  rw [hcb, interceptEndure_null (hdur'.trans hdur)]
  rw [hspooled] at hmode
  cases hsp : multiSpooled options with
  | true =>
    rw [hsp] at hs hmode
    obtain ⟨results, hres, anyFailed, hcalls⟩ := hall hmode
    rw [hcalls, if_pos rfl]
    exact endured_spooled hrs.mutated (hperm.nodup_iff.mpr hkv) hres hs
  | false =>
    rw [hsp] at hs hmode
    rw [hsingle hmode, if_neg (by decide)]
    exact endured_single hnew hrs.mutated hname hs

/-- **When the durability check covers the mutation.** For every mutation with durable options
    that is accepted, and every pattern of responses to the commands it gave libcouchbase, what
    the callback submits to `endureMulti` is the keys that were mutated, with their CAS and with
    the right flag, exactly when the call is `Coverable`. -/
theorem endured_iff (hnew : StringNewInverse) (hnd : (Assoc.keys options).Nodup)
    (hdur : Durable (.object options) = true)
    (hkv : m.isMulti = true → ∃ kv, subject = .object kv ∧ (Assoc.keys kv).Nodup)
    (hcall : call = m.invoke (m.argList subject value (.object options) user))
    (hacc : accept call.target.cls (call.args ++ [.function f]) (Command.start h) = .done hd st)
    (hexec : (withCookie call.target hd st).execute call.target.cls st.heap = some lcb)
    (hrs : Replies lcb rs) :
    Endured m (call.callback.submissions
        (Cookie.receiveAll rs ((ofState hd st).createCookie call.target.cls)).calls) rs ↔
      Coverable m subject options rs := by
  unfold Coverable
  cases hm : m.isMulti with
  | false =>
    rw [if_neg (by decide)]
    exact single_endured_iff hnew hm hnd hdur hcall hacc hexec hrs
  | true =>
    rw [if_pos rfl]
    obtain ⟨kv, rfl, hnodup⟩ := hkv hm
    exact multi_endured_iff hnew hm hnd hdur hnodup hcall hacc hexec hrs

end Life

end Proof

section Example

open scoped SmallRuntime

/-- Durability on one node. -/
def persistToOne : Props := [("persist_to", .number (.fin 1))]

/-- The one document is changed. -/
def changed (resp : Resp) : List Cookie.Response := [{ err := 0, key := utf8 "a", resp := resp }]

def setOne : NativeCall :=
  Mutation.setMulti.invoke [.object [("a", .object [("value", .string "x")])],
    .object persistToOne, .function 1]

def removeOne : NativeCall :=
  Mutation.removeMulti.invoke [.object [("a", .object [])], .object persistToOne, .function 1]

theorem Proof.replies_changed {lcb : LcbCall} {resp : Resp}
    (h : lcb.cmds.map (·.key) = [some (utf8 "a")]) (hm : resp.mutated.isSome = true) :
    Proof.Replies lcb (changed resp) where
  keys := .of_eq h.symm
  mutated r hr := by
    rw [List.mem_singleton.mp hr]
    exact hm

/-- `setMulti` of one document: its check covers it. -/
theorem Proof.endured_iff_setMulti :
    ∃ hd st, Command.accept setOne.target.cls (setOne.args ++ [.function 2]) (Command.start []) =
        .done hd st ∧
      Proof.Endured .setMulti (setOne.callback.submissions
        (Cookie.receiveAll (changed (.store 7))
          ((Command.ofState hd st).createCookie setOne.target.cls)).calls) (changed (.store 7)) := by
  obtain ⟨hd, st, hacc, htest⟩ := Outcome.exists_of_check
    (Command.accept setOne.target.cls (setOne.args ++ [.function 2]) (Command.start []))
    (fun hd st => ((Command.withCookie setOne.target hd st).execute setOne.target.cls
      st.heap).any fun lcb => lcb.cmds.map (·.key) = [some (utf8 "a")]) (by decide +kernel)
  obtain ⟨lcb, hexec, hkeys⟩ := (Option.any_eq_true _ _).mp htest
  refine ⟨hd, st, hacc, ?_⟩
  have hkv : ∃ kv, Value.object [("a", .object [("value", .string "x")])] = .object kv ∧
      (Assoc.keys kv).Nodup := ⟨_, rfl, by decide⟩
  have hcall : setOne = Mutation.setMulti.invoke (Mutation.setMulti.argList
      (.object [("a", .object [("value", .string "x")])]) .undefined (.object persistToOne)
      (.function 1)) := rfl
  refine (Proof.endured_iff SmallRuntime.stringNewInverse (by decide) (by decide) (fun _ => hkv)
    hcall hacc hexec (Proof.replies_changed (of_decide_eq_true hkeys) rfl)).mpr ?_
  show Mutation.setMulti.isRemoval = false
  rfl

/-- `removeMulti` of one document: the check is not told that it was removed. -/
theorem Proof.endured_removeMulti :
    ∃ hd st lcb, Command.accept removeOne.target.cls (removeOne.args ++ [.function 2])
        (Command.start []) = .done hd st ∧
      (Command.withCookie removeOne.target hd st).execute removeOne.target.cls st.heap = some lcb ∧
      Proof.Replies lcb (changed (.remove 7)) ∧
      ¬ Proof.Endured .removeMulti (removeOne.callback.submissions
        (Cookie.receiveAll (changed (.remove 7))
          ((Command.ofState hd st).createCookie removeOne.target.cls)).calls)
        (changed (.remove 7)) := by
  obtain ⟨hd, st, hacc, htest⟩ := Outcome.exists_of_check
    (Command.accept removeOne.target.cls (removeOne.args ++ [.function 2])
      (Command.start []))
    (fun hd st => ((Command.withCookie removeOne.target hd st).execute
      removeOne.target.cls st.heap).any fun lcb => lcb.cmds.map (·.key) = [some (utf8 "a")])
    (by decide +kernel)
  obtain ⟨lcb, hexec, hkeys⟩ := (Option.any_eq_true _ _).mp htest
  have hreplies := Proof.replies_changed (of_decide_eq_true hkeys)
    (show (Resp.remove 7).mutated.isSome = true from rfl)
  refine ⟨hd, st, lcb, hacc, hexec, hreplies, fun hend => ?_⟩
  have hcall : removeOne = Mutation.removeMulti.invoke (Mutation.removeMulti.argList
      (.object [("a", .object [])]) .undefined (.object persistToOne) (.function 1)) := rfl
  have hflag := (Proof.multi_endured_iff SmallRuntime.stringNewInverse rfl (by decide) (by decide)
    (by decide) hcall hacc hexec hreplies).mp hend
  cases (show Mutation.removeMulti.isRemoval = false from hflag)

end Example

end Couchnode
