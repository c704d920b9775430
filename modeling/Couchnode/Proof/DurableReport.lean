import Couchnode.Proof.Durability
import Couchnode.Proof.Precedence

/-!
# The report of a durable multi call

A spooled multi mutation with durability options has two phases, the store and the check of what
was stored, and the application hears of both in one call. `Checked` is how `endureMulti` answers:
it turns down a call without keys, and otherwise has one response for every key. `Faithful` is what
the application is told then: the errors of both phases, each on its own key, and the rest as the
store has it.
-/

set_option autoImplicit false

namespace Couchnode

namespace Proof

open Command Connection

variable [Runtime]

/-! ## Copying the errors -/

section Copy

variable {endureResults : Value} {keys : List String} {results : Props}

/-- The error the check of a key ended with. -/
def checkError (endureResults : Value) (key : String) : Value :=
  (endureResults.getProperty key).getProperty NameMap.err

/-- Only what is listed has an error. -/
theorem mem_of_checkError {key : String} (h : (checkError endureResults key).truthy = true) :
    key ∈ endureResults.propertyNames := by
  cases hlook : endureResults.entries.lookup key with
  | none =>
    unfold checkError Value.getProperty at h
    rw [hlook] at h
    cases h
  | some v =>
    exact List.mem_map.mpr ⟨_, Assoc.mem_of_lookup hlook, rfl⟩

/-- A result with the error of its check. -/
def withError (error : Value) (result : Props) : Props :=
  if error.truthy then forceSet NameMap.err error result else result

omit [Runtime] in
theorem withError_other (error : Value) (result : Props) {name : String} (h : name ≠ NameMap.err) :
    (withError error result).lookup name = result.lookup name := by
  unfold withError
  split
  · exact Assoc.lookup_set_ne h _ _
  · rfl

theorem withError_truthy (error : Value) (result : Props) :
    ((Value.object (withError error result)).getProperty NameMap.err).truthy = true ↔
      ((Value.object result).getProperty NameMap.err).truthy = true ∨ error.truthy = true := by
  unfold withError
  cases h : error.truthy with
  | true =>
    have hget : (Value.object (forceSet NameMap.err error result)).getProperty NameMap.err =
        error := getProperty_object (Assoc.lookup_set_self _ _ _)
    rw [if_pos rfl, hget]
    simp [h]
  | false =>
    rw [if_neg (by decide)]
    simp

/-- **The loop puts the error of each check on the result of its key**, and changes nothing
    else. -/
theorem copyErrors_lookup (hobj : ∀ key ∈ keys, ∃ result, results.lookup key = some (.object result))
    (hnd : keys.Nodup) :
    ∃ results', copyErrors endureResults keys results = some results' ∧
      Assoc.keys results' = Assoc.keys results ∧
      ∀ key result, results.lookup key = some (.object result) →
        results'.lookup key = some (.object
          (if key ∈ keys then withError (checkError endureResults key) result else result)) := by
  induction keys generalizing results with
  | nil => exact ⟨results, rfl, rfl, fun key result h => by simpa using h⟩
  | cons key keys ih =>
    obtain ⟨hkey, hnd⟩ := List.nodup_cons.mp hnd
    obtain ⟨result, hresult⟩ := hobj key List.mem_cons_self
    cases herr : (checkError endureResults key).truthy with
    | false =>
      -- the loop goes on with the same results
      obtain ⟨results', hcopy, hnames, hlook⟩ := ih
        (fun k hk => hobj k (List.mem_cons_of_mem _ hk)) hnd
      refine ⟨results', ?_, hnames, fun k r hk => ?_⟩
      · unfold copyErrors
        unfold checkError at herr
        simp only [herr, Bool.false_eq_true, if_false]
        exact hcopy
      · rw [hlook k r hk]
        by_cases he : k = key
        · subst he
          rw [if_neg hkey, if_pos List.mem_cons_self, withError, herr, if_neg (by decide)]
        · simp only [List.mem_cons, he, false_or]
    | true =>
      -- one result has changed, and no later name is its name
      let results₁ := forceSet key
        (.object (forceSet NameMap.err (checkError endureResults key) result)) results
      have hne (k : String) (hk : k ≠ key) : results₁.lookup k = results.lookup k :=
        Assoc.lookup_set_ne hk _ _
      have hobj₁ (k : String) (hk : k ∈ keys) : ∃ ps, results₁.lookup k = some (.object ps) := by
        rw [hne k fun he => hkey (he ▸ hk)]
        exact hobj k (List.mem_cons_of_mem _ hk)
      obtain ⟨results', hcopy, hnames, hlook⟩ := ih hobj₁ hnd
      refine ⟨results', ?_, hnames.trans ?_, fun k r hk => ?_⟩
      · unfold copyErrors
        unfold checkError at herr
        simp only [herr, if_true, hresult]
        exact hcopy
      · exact Assoc.keys_set_of_mem (List.mem_map.mpr ⟨_, Assoc.mem_of_lookup hresult, rfl⟩)
      · by_cases he : k = key
        · subst he
          obtain rfl : result = r := by
            rw [hresult] at hk
            cases hk
            rfl
          rw [hlook k _ (Assoc.lookup_set_self _ _ _), if_neg hkey, if_pos List.mem_cons_self,
            withError, herr, if_pos rfl]
        · rw [hlook k r ((hne k he).trans hk)]
          simp only [List.mem_cons, he, false_or]

end Copy

/-! ## The check -/

section Check

variable {e : EndureCall} {h : Heap} {g : Nat} {checks : List Cookie.Response}
  {answers : List Invocation}

/-- The status a response is reported with. -/
def statusOf (r : Cookie.Response) : Int := (ResponseInfo.ofResp r.err (some r.key) r.resp none).status

theorem responseInfo_status (c : Cookie) (r : Cookie.Response) :
    (c.responseInfo r).status = statusOf r := by
  obtain ⟨err, key, resp⟩ := r
  cases resp <;> rfl

/-- The entry of a response has an error when the response was reported as failed. -/
theorem entry_failed {c : Cookie} {r : Cookie.Response} {fields : Props}
    (herr : fields.lookup NameMap.err =
      if failed (c.responseInfo r) then some (errorObject (c.responseInfo r).status) else none) :
    ((Value.object fields).getProperty NameMap.err).truthy = true ↔ statusOf r ≠ LCB_SUCCESS := by
  rw [entry_error herr]
  simp [failed, responseInfo_status]

/-- The arguments `endureMulti` is called with. -/
def endureArgs (e : EndureCall) (g : Nat) : List Value :=
  [.object e.kv, .object e.options, .function g]

/-- How `endureMulti` calls back: without keys with the error it is turned down with, and with
    keys as its cookie has it after a response for every key. -/
inductive Checked (h : Heap) (g : Nat) (e : EndureCall) :
    List Cookie.Response → List Invocation → Prop
  | noKeys {st : PState} {answer : Invocation} : e.kv = [] →
      accept EndureCommand (endureArgs e g) (Command.start h) = .refused st →
      bailOut (endureArgs e g) st.err = some (.invoked answer) → Checked h g e [] [answer]
  | answered {hd : Header DurabilityOptions} {st : PState} {lcb : LcbCall}
      {checks : List Cookie.Response} :
      accept EndureCommand (endureArgs e g) (Command.start h) = .done hd st →
      (withCookie .endure hd st).execute EndureCommand st.heap = some lcb → RepliesTo lcb checks →
      Checked h g e checks
        (Cookie.receiveAll checks ((ofState hd st).createCookie EndureCommand)).calls

/-- A check without keys is turned down through its callback. -/
theorem checked_nothing (hkv : e.kv = []) (h : Heap) (g : Nat) :
    ∃ answer, Checked h g e [] [answer] := by
  have hkeys : EndureCommand.listSize (KeysInfo.setKeys (arg (endureArgs e g) 0)) = 0 := by
    show (KeysInfo.setKeys (.object e.kv)).ncmds = 0
    rw [hkv]
    rfl
  obtain ⟨st, hst⟩ : ∃ st, accept EndureCommand (endureArgs e g) (Command.start h) =
      .refused st := by
    obtain ⟨st, hst⟩ : ∃ st, initCommandList 0 (Command.start h) = .refused st := ⟨_, rfl⟩
    refine ⟨st, Prog.bind_of_refused ?_⟩
    unfold initializeCommand
    simp only
    rw [hkeys]
    exact Prog.bind_of_refused hst
  have hcb : (lastArg (endureArgs e g)).isFunction = true := rfl
  obtain ⟨st', hst', hbail⟩ : TurnedDown .endure (endureArgs e g) h :=
    (turnedDown_iff hcb).mpr ⟨st, hst⟩
  obtain rfl : st = st' := by
    have hst' : accept EndureCommand (endureArgs e g) (Command.start h) = .refused st' := hst'
    rw [hst] at hst'
    cases hst'
    rfl
  exact ⟨_, .noKeys hkv hst hbail⟩

/-- The check of a key failed. -/
def CheckFailed (checks : List Cookie.Response) (key : String) : Prop :=
  ∃ r ∈ checks, Runtime.stringNew r.key = key ∧ statusOf r ≠ LCB_SUCCESS

/-- What the application's interceptor finds in the answer. -/
structure Merges (e : EndureCall) (checks : List Cookie.Response) (endureErr endureResults : Value) :
    Prop where
  nodup : endureResults.propertyNames.Nodup
  names : ∀ key ∈ endureResults.propertyNames, key ∈ Assoc.keys e.kv
  errors : ∀ key, (checkError endureResults key).truthy = true ↔ CheckFailed checks key
  err : e.kv ≠ [] → (endureErr.truthy = false ↔ ∀ r ∈ checks, statusOf r = LCB_SUCCESS)

/-- A final call has an error when some response failed. -/
theorem finalError_falsy (c : Cookie) (rs : List Cookie.Response) :
    (if (rs.map fun r => c.responseInfo r).any failed then Cookie.checkResults
      else Value.undefined).truthy = false ↔ ∀ r ∈ rs, statusOf r = LCB_SUCCESS := by
  have hany : (rs.map fun r => c.responseInfo r).any failed = true ↔
      ¬ ∀ r ∈ rs, statusOf r = LCB_SUCCESS := by
    simp [failed, responseInfo_status]
  by_cases hall : ∀ r ∈ rs, statusOf r = LCB_SUCCESS
  · rw [if_neg (fun h => hany.mp h hall)]
    exact iff_of_true rfl hall
  · rw [if_pos (hany.mpr hall)]
    exact iff_of_false (fun h => Bool.noConfusion h) hall

/-- The results of a check, key by key. -/
theorem errors_of_results {c : Cookie} {endureResults : Props}
    (hnd : (checks.map fun r => Runtime.stringNew r.key).Nodup)
    (hres : Results (checks.map fun r => c.responseInfo r) endureResults) (key : String) :
    (checkError (.object endureResults) key).truthy = true ↔ CheckFailed checks key := by
  by_cases hkey : ∃ r ∈ checks, Runtime.stringNew r.key = key
  · obtain ⟨r, hr, rfl⟩ := hkey
    obtain ⟨fields, hlook, herr, _⟩ := results_entry hnd hres hr
    have hfailed : (checkError (.object endureResults) (Runtime.stringNew r.key)).truthy = true ↔
        statusOf r ≠ LCB_SUCCESS := by
      unfold checkError
      rw [getProperty_object hlook]
      exact entry_failed herr
    rw [hfailed]
    constructor
    · intro hfail
      exact ⟨r, hr, rfl, hfail⟩
    · rintro ⟨r', hr', hname, hfail⟩
      obtain rfl : r' = r := List.inj_on_of_nodup_map hnd hr' hr hname
      exact hfail
  · have hnone : endureResults.lookup key = none := by
      rw [List.lookup_eq_none_iff]
      intro p hp
      have hmem : p.1 ∈ Assoc.keys endureResults := List.mem_map_of_mem hp
      obtain ⟨r, hr, hname⟩ := List.mem_map.mp ((results_names hnd hres).mem_iff.mp hmem)
      have hne : key ≠ p.1 := fun he => hkey ⟨r, hr, hname.trans he.symm⟩
      simpa using hne
    have hget : checkError (.object endureResults) key = .undefined := by
      unfold checkError Value.getProperty
      simp only [Value.entries]
      rw [hnone]
      rfl
    rw [hget]
    constructor
    · intro ht
      cases ht
    · rintro ⟨r, hr, hname, _⟩
      exact absurd ⟨r, hr, hname⟩ hkey

/-- **`endureMulti` calls back once**, with the outcome of every check. -/
theorem checked_merges (hnew : StringNewInverse) (hnd : (Assoc.keys e.kv).Nodup) {v : Value}
    (hs : e.options.lookup NameMap.spooled = some v) (hv : v.truthy = true)
    (hc : Checked h g e checks answers) :
    ∃ answer, answers = [answer] ∧ Merges e checks (arg answer.args 0) (arg answer.args 1) := by
  cases hc with
  | @noKeys st answer hkv hst hbail =>
    refine ⟨answer, rfl, ?_⟩
    -- the call back has an error and nothing else
    have hlone : arg answer.args 1 = .undefined := by
      simp only [bailOut, endureArgs, lastArg, List.getLastD_eq_getLast?] at hbail
      cases hbail
      rfl
    rw [hlone]
    constructor
    · exact List.nodup_nil
    · intro key hkey
      cases hkey
    · intro key
      constructor
      · intro ht
        cases ht
      · rintro ⟨r, hr, _⟩
        cases hr
    · intro hne
      exact absurd hkv hne
  | @answered hd st lcb checks hacc hexec hreplies =>
    obtain ⟨hperm, hname, hans⟩ := keyed_answered (k := .endure) hnew (.inr rfl) hacc rfl hexec
      hreplies
    have hmode : ((ofState hd st).createCookie EndureCommand).cbType = .spooled := by
      have harg : arg (endureArgs e g) 1 = .object e.options := rfl
      have hmode := mode_options (k := .endure) (.inr rfl) hacc harg hs
      rw [hv, if_pos rfl] at hmode
      exact hmode
    have hnames : (checks.map fun r => Runtime.stringNew r.key).Nodup := hperm.nodup_iff.mpr hnd
    obtain ⟨results, hres, hcalls⟩ := hans.spooled hmode
    rw [List.take_of_length_le (by simp)] at hcalls
    refine ⟨_, hcalls, ?_⟩
    constructor
    · exact hres.nodup
    · intro key hkey
      exact hperm.mem_iff.mp ((results_names hnames hres).mem_iff.mp hkey)
    · exact errors_of_results hnames hres
    · intro _
      exact finalError_falsy _ checks

end Check

/-! ## The report -/

/-- The report is faithful to both phases: the error says that something failed, each result has
    an error exactly when its key was not stored or not checked, and is as the store has it
    otherwise. -/
structure Faithful (rs checks : List Cookie.Response) (results : Props) (err : Value)
    (results' : Props) : Prop where
  err : err.truthy = false ↔
    (∀ r ∈ rs, r.err = LCB_SUCCESS) ∧ ∀ r ∈ checks, statusOf r = LCB_SUCCESS
  names : Assoc.keys results' = Assoc.keys results
  entries : ∀ r ∈ rs, ∃ before after,
    results.lookup (Runtime.stringNew r.key) = some (.object before) ∧
    results'.lookup (Runtime.stringNew r.key) = some (.object after) ∧
    (((Value.object after).getProperty NameMap.err).truthy = true ↔
      r.err ≠ LCB_SUCCESS ∨ CheckFailed checks (Runtime.stringNew r.key)) ∧
    ∀ name, name ≠ NameMap.err → after.lookup name = before.lookup name

section Report

variable {rs checks : List Cookie.Response} {c : Cookie} {results eo : Props}
  {endureErr endureResults : Value}

/-- What the interceptor submits. -/
abbrev submittedCall (results eo : Props) : EndureCall :=
  { kv := endureKv (.object results), options := eo }

/-- The keys of a submission are those that were stored. -/
theorem submitted_keys (hm : ∀ r ∈ rs, r.resp.mutated.isSome = true)
    (hnd : (rs.map fun r => Runtime.stringNew r.key).Nodup)
    (hres : Results (rs.map fun r => c.responseInfo r) results) (key : String) :
    key ∈ Assoc.keys (submittedCall results eo).kv ↔
      ∃ r ∈ rs, r.err = LCB_SUCCESS ∧ Runtime.stringNew r.key = key := by
  have hpairs := (spooled_pairs hm hnd hres eo).map Prod.fst
  have hfst : (submittedCall results eo).pairs.map Prod.fst =
      Assoc.keys (submittedCall results eo).kv := by
    unfold EndureCall.pairs Assoc.keys
    rw [List.map_map]
    rfl
  rw [hfst] at hpairs
  rw [hpairs.mem_iff]
  constructor
  · intro hkey
    obtain ⟨p, hp, rfl⟩ := List.mem_map.mp hkey
    obtain ⟨r, hr, hsucc⟩ := List.mem_filterMap.mp hp
    by_cases hok : r.err = LCB_SUCCESS
    · obtain ⟨cas, _, hs⟩ := success_of_ok hok (hm r hr)
      rw [hs] at hsucc
      cases hsucc
      exact ⟨r, hr, hok, rfl⟩
    · rw [success_of_failed hok] at hsucc
      cases hsucc
  · rintro ⟨r, hr, hok, rfl⟩
    obtain ⟨cas, _, hs⟩ := success_of_ok hok (hm r hr)
    exact List.mem_map.mpr ⟨_, List.mem_filterMap.mpr ⟨r, hr, hs⟩, rfl⟩

theorem statusOf_mutated {r : Cookie.Response} (hm : r.resp.mutated.isSome = true) :
    statusOf r = r.err := by
  obtain ⟨err, key, resp⟩ := r
  cases resp with
  | store | arithmetic | remove => rfl
  | _ => cases hm

/-- The error of the report is falsy when both phases went well for every key. -/
theorem either_falsy (hm : ∀ r ∈ rs, r.resp.mutated.isSome = true) (hne : rs ≠ [])
    (hnd : (rs.map fun r => Runtime.stringNew r.key).Nodup)
    (hres : Results (rs.map fun r => c.responseInfo r) results) {err : Value}
    (herr : err.truthy = false ↔ ∀ r ∈ rs, r.err = LCB_SUCCESS)
    (hmerges : Merges (submittedCall results eo) checks endureErr endureResults) :
    (either err endureErr).truthy = false ↔
      (∀ r ∈ rs, r.err = LCB_SUCCESS) ∧ ∀ r ∈ checks, statusOf r = LCB_SUCCESS := by
  -- the error of the store goes first; without one, everything was submitted
  unfold either
  cases ht : err.truthy with
  | true =>
    rw [if_pos rfl, ht]
    have hnot : ¬ ∀ r ∈ rs, r.err = LCB_SUCCESS := by
      intro hall
      rw [herr.mpr hall] at ht
      cases ht
    apply iff_of_false
    · intro h
      cases h
    · intro h
      exact hnot h.1
  | false =>
    have hall := herr.mp ht
    have hkv : (submittedCall results eo).kv ≠ [] := by
      intro hnil
      obtain ⟨r, hr⟩ := List.exists_mem_of_ne_nil rs hne
      have hkey : _ ∈ Assoc.keys (submittedCall results eo).kv :=
        (submitted_keys hm hnd hres _).mpr ⟨r, hr, hall r hr, rfl⟩
      rw [hnil] at hkey
      cases hkey
    rw [if_neg Bool.false_ne_true, hmerges.err hkv]
    exact (and_iff_right hall).symm

/-- **The two reports put together.** -/
theorem merged_faithful (hm : ∀ r ∈ rs, r.resp.mutated.isSome = true) (hne : rs ≠ [])
    (hnd : (rs.map fun r => Runtime.stringNew r.key).Nodup)
    (hres : Results (rs.map fun r => c.responseInfo r) results) {err : Value}
    (herr : err.truthy = false ↔ ∀ r ∈ rs, r.err = LCB_SUCCESS)
    (hmerges : Merges (submittedCall results eo) checks endureErr endureResults) :
    ∃ results', copyErrors endureResults endureResults.propertyNames results = some results' ∧
      Faithful rs checks results (either err endureErr) results' := by
  have hobj (key : String) (hkey : key ∈ endureResults.propertyNames) :
      ∃ result, results.lookup key = some (.object result) := by
    obtain ⟨r, hr, _, rfl⟩ := (submitted_keys hm hnd hres key).mp (hmerges.names key hkey)
    obtain ⟨fields, hlook, _⟩ := results_entry hnd hres hr
    exact ⟨fields, hlook⟩
  obtain ⟨results', hcopy, hnames, hlook⟩ := copyErrors_lookup hobj hmerges.nodup
  refine ⟨results', hcopy, ?_, hnames, fun r hr => ?_⟩
  · exact either_falsy hm hne hnd hres herr hmerges
  · obtain ⟨before, hbefore, herror, _⟩ := results_entry hnd hres hr
    have hstored : ((Value.object before).getProperty NameMap.err).truthy = true ↔
        r.err ≠ LCB_SUCCESS := by
      rw [entry_failed herror, statusOf_mutated (hm r hr)]
    refine ⟨before, _, hbefore, hlook _ _ hbefore, ?_, ?_⟩
    · by_cases hmem : Runtime.stringNew r.key ∈ endureResults.propertyNames
      · rw [if_pos hmem, withError_truthy, hstored, hmerges.errors]
      · rw [if_neg hmem, hstored]
        have hnone : ¬ CheckFailed checks (Runtime.stringNew r.key) := by
          rw [← hmerges.errors]
          intro ht
          exact hmem (mem_of_checkError ht)
        exact (or_iff_left hnone).symm
    · intro name hname
      split
      · exact withError_other _ _ hname
      · rfl

/-- A spooled multi mutation that was accepted, and whose store has been answered: its native call
    calls back once, and the interceptor submits what was stored. -/
theorem store_heard {m : Mutation} {value user : Value} {options : Props} {call : NativeCall}
    {f : Nat} {h : Heap} {hd : Header call.target.Opts} {st : PState} {lcb : LcbCall} {kv : Props}
    (hnew : StringNewInverse) (hm : m.isMulti = true) (hnd : (Assoc.keys options).Nodup)
    (hdur : Durable (.object options) = true) (hspooled : multiSpooled options = true)
    (hcall : call = m.invoke (m.argList (.object kv) value (.object options) user))
    (hacc : accept call.target.cls (call.args ++ [.function f]) (Command.start h) = .done hd st)
    (hexec : (withCookie call.target hd st).execute call.target.cls st.heap = some lcb)
    (hrs : Replies lcb rs) :
    let c := (ofState hd st).createCookie call.target.cls
    (rs.map fun r => Runtime.stringNew r.key).Perm (Assoc.keys kv) ∧
      (∃ err results, Results (rs.map fun r => c.responseInfo r) results ∧
        (Cookie.receiveAll rs c).calls.map (·.args) = [[err, .object results]] ∧
        (err.truthy = false ↔ ∀ r ∈ rs, r.err = LCB_SUCCESS)) ∧
      ∃ ps v, call.callback = .interceptor .null (.object ps)
          (endureOptions (.object ps) false) user ∧
        ps.lookup NameMap.spooled = some v ∧ v.truthy = true := by
  intro c
  have hk : Mutates call.target := hcall ▸ invoke_mutates
  obtain ⟨hargs, hcb⟩ := invoke_multi (.object kv) value (.object options) user hm
  obtain ⟨ps, hps, hdur', v, hv, hsp⟩ := multiOptions_object hnd
  rw [← hcall, hps] at hargs hcb
  have harg : arg (call.args ++ [.function f]) 0 = .object kv := by rw [hargs]; rfl
  have harg₁ : arg (call.args ++ [.function f]) 1 = .object ps := by rw [hargs]; rfl
  obtain ⟨hperm, _, hans⟩ := mutation_answered hnew hk hacc harg hexec hrs
  have hmode := mode_options (.inl hk) hacc harg₁ hv
  rw [hsp, hspooled, if_pos rfl] at hmode
  obtain ⟨results, hres, hcalls⟩ := hans.spooled hmode
  rw [List.take_of_length_le (by simp)] at hcalls
  rw [interceptEndure_null (hdur'.trans hdur)] at hcb
  refine ⟨hperm, ⟨_, results, hres, ?_, (finalError_falsy c rs).trans ?_⟩, ps, v, hcb, hv,
    hsp.trans hspooled⟩
  · rw [hcalls]
    rfl
  · refine forall₂_congr fun r hr => ?_
    rw [statusOf_mutated (hrs.mutated r hr)]

/-- **A durable spooled multi call reports faithfully.** Its native call calls back once; the
    interceptor submits what was stored; and however `endureMulti` answers that, the application
    is told once, and faithfully. Where nothing was stored, `endureMulti` has no keys and turns
    the call down. -/
theorem durable_multi_faithful {m : Mutation} {value user : Value} {options : Props}
    {call : NativeCall} {f g : Nat} {h h' : Heap} {hd : Header call.target.Opts} {st : PState}
    {lcb : LcbCall} {kv : Props}
    (hnew : StringNewInverse) (hm : m.isMulti = true) (hnd : (Assoc.keys options).Nodup)
    (hdur : Durable (.object options) = true) (hspooled : multiSpooled options = true)
    (hkv : (Assoc.keys kv).Nodup) (hne : kv ≠ [])
    (hcall : call = m.invoke (m.argList (.object kv) value (.object options) user))
    (hacc : accept call.target.cls (call.args ++ [.function f]) (Command.start h) = .done hd st)
    (hexec : (withCookie call.target hd st).execute call.target.cls st.heap = some lcb)
    (hrs : Replies lcb rs) :
    ∃ err results e,
      (Cookie.receiveAll rs ((ofState hd st).createCookie call.target.cls)).calls.map (·.args) =
        [[err, .object results]] ∧
      call.callback.submit err (.object results) = some e ∧
      (e.kv = [] → ∃ answer, Checked h' g e [] [answer]) ∧
      ∀ checks answers, Checked h' g e checks answers →
        ∃ err' results', call.callback.reports err (.object results) answers =
            [some (err', .object results')] ∧
          Faithful rs checks results err' results' := by
  obtain ⟨hperm, ⟨err, results, hres, hcalls, herr⟩, ps, v, hcb, hv, htruthy⟩ :=
    store_heard hnew hm hnd hdur hspooled hcall hacc hexec hrs
  have hs : ((Value.object ps).getProperty NameMap.spooled).truthy = true := by
    rw [getProperty_object hv]
    exact htruthy
  have hsubmit : call.callback.submit err (.object results) =
      some (submittedCall results (endureOptions (.object ps) false)) := by
    rw [hcb]
    exact if_pos hs
  refine ⟨err, results, _, hcalls, hsubmit, fun hnil => checked_nothing hnil h' g,
    fun checks answers hchecked => ?_⟩
  have hrsne : rs ≠ [] := by
    rintro rfl
    exact hne (by simpa [Assoc.keys] using hperm)
  obtain ⟨answer, rfl, hmerges⟩ := checked_merges hnew
    (show (Assoc.keys (endureKv (.object results))).Nodup from
      Assoc.nodup_keys_writes List.nodup_nil)
    (show (endureOptions (.object ps) false).lookup NameMap.spooled = some _ from rfl) hs hchecked
  obtain ⟨results', hcopy, hfaithful⟩ :=
    merged_faithful hrs.mutated hrsne (hperm.nodup_iff.mpr hkv) hres herr hmerges
  refine ⟨_, results', ?_, hfaithful⟩
  rw [hcb]
  refine (if_pos hs).trans ?_
  show [(copyErrors _ _ results).map _] = _
  rw [hcopy]
  rfl

end Report

end Proof

section Example

open scoped SmallRuntime

def setTwo : NativeCall :=
  Mutation.setMulti.invoke [.object [("a", .object [("value", .string "x")]),
    ("b", .object [("value", .string "y")])], .object persistToOne, .function 1]

/-- One document is stored and one is not. -/
def halfStored : List Cookie.Response :=
  [{ err := 12, key := utf8 "b", resp := .store 0 }, { err := 0, key := utf8 "a", resp := .store 7 }]

/-- The one that is stored is not on the disk in time. -/
def notPersisted : List Cookie.Response :=
  [{ err := 0, key := utf8 "a", resp := .durability 7 23 true false 0 0 }]

/-- Is libcouchbase asked for these keys? -/
def asksFor {k : Kind} (keys : List String) (hd : Header k.Opts) (st : PState) : Bool :=
  ((Command.withCookie k hd st).execute k.cls st.heap).any fun lcb =>
    lcb.cmds.map (·.key) = keys.map fun key => some (utf8 key)

/-- `setMulti` of two documents: the one that is not stored and the one whose check fails are both
    reported, each on its own key. -/
theorem Proof.durable_multi_faithful_setMulti :
    ∃ hd st err results e answers err' results',
      Command.accept setTwo.target.cls (setTwo.args ++ [.function 2]) (Command.start []) =
        .done hd st ∧
      (Cookie.receiveAll halfStored
        ((Command.ofState hd st).createCookie setTwo.target.cls)).calls.map (·.args) =
          [[err, .object results]] ∧
      setTwo.callback.submit err (.object results) = some e ∧
      Proof.Checked [] 3 e notPersisted answers ∧
      setTwo.callback.reports err (.object results) answers = [some (err', .object results')] ∧
      Proof.Faithful halfStored notPersisted results err' results' := by
  obtain ⟨hd, st, hacc, htest⟩ := Outcome.exists_of_check
    (Command.accept setTwo.target.cls (setTwo.args ++ [.function 2]) (Command.start []))
    (fun hd st => asksFor ["a", "b"] hd st &&
      ((Cookie.receiveAll halfStored
        ((Command.ofState hd st).createCookie setTwo.target.cls)).calls.map (·.args)).all fun args =>
          (setTwo.callback.submit (Command.arg args 0) (Command.arg args 1)).all fun e =>
            (Command.accept EndureCommand (Proof.endureArgs e 3) (Command.start [])).check
              (asksFor (k := .endure) ["a"])) (by decide +kernel)
  obtain ⟨hasks, hchecks⟩ := Bool.and_eq_true_iff.mp htest
  obtain ⟨lcb, hexec, hkeys⟩ := (Option.any_eq_true _ _).mp hasks
  have hreplies : Proof.Replies lcb halfStored := by
    refine ⟨?_, by decide⟩
    rw [of_decide_eq_true hkeys]
    exact List.Perm.swap _ _ _
  have hcall : setTwo = Mutation.setMulti.invoke (Mutation.setMulti.argList
      (.object [("a", .object [("value", .string "x")]), ("b", .object [("value", .string "y")])])
      .undefined (.object persistToOne) (.function 1)) := rfl
  obtain ⟨err, results, e, hcalls, hsubmit, _, hreport⟩ :=
    @Proof.durable_multi_faithful _ _ _ _ _ _ _ _ 3 _ [] _ _ _ _ SmallRuntime.stringNewInverse rfl
      (by decide) (by decide) (by decide) (by decide) (by decide) hcall hacc hexec hreplies
  -- the check of the one that is stored is answered
  rw [hcalls] at hchecks
  simp only [List.all_cons, List.all_nil, Bool.and_true, Command.arg, List.getD_cons_zero,
    List.getD_cons_succ, hsubmit, Option.all_some] at hchecks
  obtain ⟨hd', st', hacc', htest'⟩ := Outcome.exists_of_check _ _ hchecks
  obtain ⟨lcb', hexec', hkeys'⟩ := (Option.any_eq_true _ _).mp htest'
  have hchecked : Proof.Checked [] 3 e notPersisted _ :=
    .answered hacc' hexec' (.of_eq (of_decide_eq_true hkeys').symm)
  obtain ⟨err', results', hreports, hfaithful⟩ := hreport _ _ hchecked
  exact ⟨hd, st, err, results, e, _, err', results', hacc, hcalls, hsubmit, hchecked, hreports,
    hfaithful⟩

end Example

end Couchnode
