import Couchnode.Proof.Cookie
import Couchnode.Proof.Machine
import Couchnode.Proof.Rejection

/-!
# What the application hears of a request

`Answered c infos run` says what the application callback of cookie `c` is told while the
responses `infos` come in, `run m` being the cookie after `m` of them: in single mode one call
per response, in spooled mode one call after the last, whose results object is `Results infos`.
It holds of any run of as many responses as the cookie waits for (`answered_run`).

`plain_cookie_answered` is the instance for requests. A cookie made by an accepted key-value
request waits for exactly as many responses as the request has commands, so the answers of
libcouchbase, in any order, and a cancellation with the request's own keys both come out even.
-/

set_option autoImplicit false

namespace Couchnode

namespace Proof

open Command

variable [Runtime]

/-- The results object of a spooled call: every key that was answered, with its last payload,
    which carries an error when that response failed. -/
structure Results (infos : List ResponseInfo) (results : Props) : Prop where
  names : ∀ name, name ∈ Assoc.keys results ↔ ∃ info ∈ infos, name = info.keyName
  nodup : (Assoc.keys results).Nodup
  last : ∀ pre info post, infos = pre ++ info :: post →
    (∀ later ∈ post, later.keyName ≠ info.keyName) →
    ∃ payload, results.lookup info.keyName = some (.object payload) ∧
      payload.lookup NameMap.err = (if failed info then some (errorObject info.status) else none) ∧
      ∀ name, name ≠ NameMap.err → payload.lookup name = (info.payload.getD []).lookup name

/-- What cookie `c` has reported, and whether it is still there, after `m` of the responses. -/
structure Answered (c : Cookie) (infos : List ResponseInfo) (run : Nat → Cookie) : Prop where
  alive : ∀ m, m < infos.length → (run m).deletes = 0
  destroyed : (run infos.length).deletes = 1
  untouched : ∀ m, m ≤ infos.length → (run m).usedAfterDelete = false
  single : c.cbType = .single → ∀ m, m ≤ infos.length →
    (run m).calls = (infos.take m).map (singleCall c)
  waiting : c.cbType = .spooled → ∀ m, m < infos.length → (run m).calls = []
  spooled : c.cbType = .spooled → ∃ results, Results infos results ∧
    (run infos.length).calls = [finalCall c results (infos.any failed)]

/-! ## The results object -/

section Payload

variable {infos : List ResponseInfo} {info : ResponseInfo}

theorem errorObject_undefined (status : Int) :
    (errorObject status).isUndefined = decide (status = LCB_SUCCESS) := by
  unfold errorObject
  by_cases h : status = LCB_SUCCESS
  · simp [h, Value.isUndefined]
  · simp [h, lcbError, CBExc.asValue, Value.isUndefined]

/-- The payload kept for a response: its own fields, and the error of a failed one. -/
theorem spooledPayload_lookup (hclean : (info.payload.getD []).lookup NameMap.err = none) :
    (Cookie.spooledPayload (errorObject info.status) info).lookup NameMap.err =
        (if failed info then some (errorObject info.status) else none) ∧
      ∀ name, name ≠ NameMap.err →
        (Cookie.spooledPayload (errorObject info.status) info).lookup name =
          (info.payload.getD []).lookup name := by
  unfold Cookie.spooledPayload failed
  rw [errorObject_undefined]
  by_cases h : info.status = LCB_SUCCESS
  · simp [h, hclean]
  · refine ⟨by simp [h], fun name hname => ?_⟩
    simp [h, Assoc.lookup_set_ne hname]

omit [Runtime] in
/-- The last of several pairs with one name. -/
theorem lookup_reverse_last {pre post : Props} {name : String} {v : Value}
    (h : ∀ p ∈ post, p.1 ≠ name) :
    (pre ++ (name, v) :: post).reverse.lookup name = some v := by
  have hnone : post.reverse.lookup name = none := by
    rw [List.lookup_eq_none_iff]
    intro p hp
    have := h p (List.mem_reverse.mp hp)
    simpa using fun e => this (Eq.symm e)
  rw [List.reverse_append, List.reverse_cons, List.lookup_append, List.lookup_append, hnone]
  simp

/-- **What the spooled responses leave is their results object.** -/
theorem resultsOf_results
    (hclean : ∀ info ∈ infos, (info.payload.getD []).lookup NameMap.err = none) :
    Results infos (resultsOf infos []) where
  names name := by
    unfold resultsOf
    rw [Assoc.mem_keys_writes]
    simp only [Assoc.keys, List.map_map, List.map_nil, List.not_mem_nil, or_false, List.mem_map,
      Function.comp_apply, spooledEntry]
    constructor
    · rintro ⟨info, hi, rfl⟩
      exact ⟨info, hi, rfl⟩
    · rintro ⟨info, hi, rfl⟩
      exact ⟨info, hi, rfl⟩
  nodup := Assoc.nodup_keys_writes (by simp [Assoc.keys])
  last pre info post he hlast := by
    have hmem : info ∈ infos := by rw [he]; simp
    obtain ⟨herr, hother⟩ := spooledPayload_lookup (hclean info hmem)
    refine ⟨_, ?_, herr, hother⟩
    unfold resultsOf
    rw [Assoc.lookup_writes, he, List.map_append, List.map_cons]
    show ((pre.map spooledEntry ++ (info.keyName, _) :: post.map spooledEntry).reverse.lookup
      info.keyName).or _ = _
    rw [lookup_reverse_last]
    · rfl
    · intro p hp
      obtain ⟨later, hl, rfl⟩ := List.mem_map.mp hp
      exact hlast later hl

end Payload

/-! ## As many responses as the cookie waits for -/

/-- The cookies that count the keys of their request down. -/
def CountsKeys (kind : CookieKind) : Prop := kind = .plain ∨ kind = .observe

/-- A cookie nothing has happened to yet, waiting for `n` responses. -/
structure Untouched (c : Cookie) (n : Nat) : Prop where
  remaining : c.remaining = n
  deletes : c.deletes = 0
  unused : c.usedAfterDelete = false
  calls : c.calls = []
  noError : c.hasError = false
  spooledInfo : c.cbType = .spooled → c.spooledInfo = some []

section Run

variable {c : Cookie} {infos : List ResponseInfo}

omit [Runtime] in
theorem take_full {m : Nat} (hm : m ≤ infos.length) :
    ((infos.take m).length = infos.length ∧ 0 < infos.length) ↔
      (m = infos.length ∧ 0 < infos.length) := by
  rw [List.length_take]
  omega

theorem answered_single (hc : Untouched c infos.length) (hmode : c.cbType = .single)
    (hpos : 0 < infos.length) : Answered c infos fun m => c.responses (infos.take m) := by
  have hrun (m : Nat) (hm : m ≤ infos.length) :=
    responses_single hc.deletes hc.remaining hmode
      (show (infos.take m).length ≤ infos.length from List.length_take_le' _ _)
  refine ⟨fun m hm => ?_, ?_, fun m hm => ?_, fun _ m hm => ?_, fun h => ?_, fun h => ?_⟩
  · show (c.responses (infos.take m)).deletes = 0
    have hne : ¬ (m = infos.length ∧ 0 < infos.length) := by omega
    rw [hrun m (Nat.le_of_lt hm)]
    simp only [take_full (Nat.le_of_lt hm), if_neg hne]
  · show (c.responses (infos.take infos.length)).deletes = 1
    rw [hrun _ (Nat.le_refl _)]
    exact if_pos ((take_full (Nat.le_refl _)).mpr ⟨rfl, hpos⟩)
  · show (c.responses (infos.take m)).usedAfterDelete = false
    rw [hrun m hm]
    exact hc.unused
  · show (c.responses (infos.take m)).calls = _
    rw [hrun m hm]
    simp [hc.calls]
  · rw [hmode] at h
    cases h
  · rw [hmode] at h
    cases h

theorem answered_spooled (hc : Untouched c infos.length) (hmode : c.cbType = .spooled)
    (hpos : 0 < infos.length) (hcount : ∀ info ∈ infos, Counts c info)
    (hclean : ∀ info ∈ infos, (info.payload.getD []).lookup NameMap.err = none) :
    Answered c infos fun m => c.responses (infos.take m) := by
  have hrun (m : Nat) (hm : m ≤ infos.length) :=
    responses_spooled hc.deletes hc.remaining hmode (hc.spooledInfo hmode)
      (fun i hi => hcount i (List.mem_of_mem_take hi))
      (show (infos.take m).length ≤ infos.length from List.length_take_le' _ _)
  have hpart (m : Nat) (hm : m < infos.length) :
      ¬ ((infos.take m).length = infos.length ∧ 0 < infos.length) := by
    rw [take_full (Nat.le_of_lt hm)]
    omega
  have hlast : (infos.take infos.length).length = infos.length ∧ 0 < infos.length := by
    rw [take_full (Nat.le_refl _)]
    exact ⟨rfl, hpos⟩
  refine ⟨fun m hm => ?_, ?_, fun m hm => ?_, fun h => ?_, fun _ m hm => ?_, fun _ => ?_⟩
  · show (c.responses (infos.take m)).deletes = 0
    rw [hrun m (Nat.le_of_lt hm)]
    simp only [if_neg (hpart m hm)]
    exact hc.deletes
  · show (c.responses (infos.take infos.length)).deletes = 1
    rw [hrun _ (Nat.le_refl _)]
    simp only [if_pos hlast]
  · show (c.responses (infos.take m)).usedAfterDelete = false
    rw [hrun m hm]
    split <;> exact hc.unused
  · rw [hmode] at h
    cases h
  · show (c.responses (infos.take m)).calls = []
    rw [hrun m (Nat.le_of_lt hm)]
    simp only [if_neg (hpart m hm)]
    exact hc.calls
  · refine ⟨_, resultsOf_results hclean, ?_⟩
    show (c.responses (infos.take infos.length)).calls = _
    rw [hrun _ (Nat.le_refl _)]
    simp only [if_pos hlast]
    simp [hc.calls, hc.noError]

/-- **A cookie answers for any run of as many responses as it waits for.** -/
theorem answered_run (hc : Untouched c infos.length) (hpos : 0 < infos.length)
    (hcount : ∀ info ∈ infos, Counts c info)
    (hclean : ∀ info ∈ infos, (info.payload.getD []).lookup NameMap.err = none) :
    Answered c infos fun m => c.responses (infos.take m) := by
  cases hmode : c.cbType with
  | single => exact answered_single hc hmode hpos
  | spooled => exact answered_spooled hc hmode hpos hcount hclean

end Run

/-! ## The responses of libcouchbase -/

section Receive

variable {c : Cookie}

omit [Runtime] in
@[simp] theorem touch_keeps :
    c.touch.keyOptions = c.keyOptions ∧ c.touch.callback = c.callback := by
  unfold Cookie.touch
  split <;> exact ⟨rfl, rfl⟩

omit [Runtime] in
@[simp] theorem invoke_keeps (args : List Value) :
    (c.invoke args).keyOptions = c.keyOptions ∧ (c.invoke args).callback = c.callback := by
  simp [Cookie.invoke]

omit [Runtime] in
@[simp] theorem delete_keeps :
    c.delete.keyOptions = c.keyOptions ∧ c.delete.callback = c.callback := by
  simp [Cookie.delete]

/-- Counting down and reporting leave the per-key options and the callback alone. -/
theorem markProgress_keeps (info : ResponseInfo) :
    (c.markProgress info).keyOptions = c.keyOptions ∧
      (c.markProgress info).callback = c.callback := by
  have hcount : (c.countDown info).keyOptions = c.keyOptions ∧
      (c.countDown info).callback = c.callback := by
    unfold Cookie.countDown
    dsimp only
    split <;> simp [Cookie.invokeSpooledCallback]
  have hreport (c : Cookie) : (c.report info).keyOptions = c.keyOptions ∧
      (c.report info).callback = c.callback := by
    unfold Cookie.report
    dsimp only
    split <;> split <;>
      simp [Cookie.invokeSingleCallback, Cookie.addSpooledInfo] <;> cases info.payload <;> simp
  have hfinish (c : Cookie) : c.finish.keyOptions = c.keyOptions ∧
      c.finish.callback = c.callback := by
    unfold Cookie.finish
    dsimp only
    split <;> split <;> simp [Cookie.invokeSpooledCallback]
  unfold Cookie.markProgress
  rw [(hfinish _).1, (hfinish _).2, (hreport _).1, (hreport _).2, hcount.1, hcount.2]
  exact ⟨rfl, rfl⟩

theorem responses_callback (infos : List ResponseInfo) :
    (c.responses infos).callback = c.callback := by
  induction infos generalizing c with
  | nil => rfl
  | cons info infos ih => exact ih.trans (markProgress_keeps info).2

/-- Receiving responses is making progress with what they carry. -/
theorem receiveAll_eq (rs : List Cookie.Response) :
    Cookie.receiveAll rs c = c.responses (rs.map fun r => c.responseInfo r) := by
  induction rs generalizing c with
  | nil => rfl
  | cons r rs ih =>
    show Cookie.receiveAll rs (c.receive r) = _
    rw [ih]
    have hinfo (r' : Cookie.Response) : (c.receive r).responseInfo r' = c.responseInfo r' := by
      unfold Cookie.responseInfo Cookie.getKeyOption Cookie.receive
      rw [(markProgress_keeps _).1]
    simp only [hinfo]
    rfl

/-- No response brings an `error` field of its own. -/
theorem responseInfo_clean (r : Cookie.Response) :
    ((c.responseInfo r).payload.getD []).lookup NameMap.err = none := by
  have hfields (o : Option Value) (resp : Resp) :
      (ResponseInfo.fields o resp).lookup NameMap.err = none := by
    cases resp with
    | durability cas err em pm np nr => cases em <;> cases pm <;> rfl
    | _ => rfl
  obtain ⟨err, key, resp⟩ := r
  unfold Cookie.responseInfo ResponseInfo.ofResp
  cases resp with
  | durability cas e em pm np nr =>
    exact hfields (c.getKeyOption (.string (Runtime.stringNew key))) (.durability cas e em pm np nr)
  | _ =>
    by_cases h : err = LCB_SUCCESS
    · simpa [h] using hfields _ _
    · simp [h]

/-- The name a response is stored under. -/
theorem responseInfo_keyName (r : Cookie.Response) :
    (c.responseInfo r).keyName = Runtime.stringNew r.key := by
  obtain ⟨err, key, resp⟩ := r
  cases resp <;> rfl

/-- The entry of the last response to a key in the results object. -/
theorem results_last {rs pre post : List Cookie.Response} {r : Cookie.Response} {results : Props}
    (hres : Results (rs.map fun r => c.responseInfo r) results) (he : rs = pre ++ r :: post)
    (hlast : ∀ later ∈ post, Runtime.stringNew later.key ≠ Runtime.stringNew r.key) :
    ∃ fields, results.lookup (Runtime.stringNew r.key) = some (.object fields) ∧
      fields.lookup NameMap.err =
        (if failed (c.responseInfo r) then some (errorObject (c.responseInfo r).status) else none) ∧
      ∀ name, name ≠ NameMap.err →
        fields.lookup name = ((c.responseInfo r).payload.getD []).lookup name := by
  subst he
  have hnames : ∀ later ∈ post.map fun r => c.responseInfo r,
      later.keyName ≠ (c.responseInfo r).keyName := by
    intro later hl
    obtain ⟨r', hr', rfl⟩ := List.mem_map.mp hl
    rw [responseInfo_keyName, responseInfo_keyName]
    exact hlast r' hr'
  obtain ⟨fields, hlook, herr, hother⟩ := hres.last (pre.map fun r => c.responseInfo r) _ _
    (by rw [List.map_append, List.map_cons]) hnames
  rw [responseInfo_keyName] at hlook
  exact ⟨fields, hlook, herr, hother⟩

theorem responseInfo_hasKey {r : Cookie.Response} (h : r.key ≠ []) :
    (c.responseInfo r).hasKey = true := by
  obtain ⟨err, key, resp⟩ := r
  unfold Cookie.responseInfo ResponseInfo.ofResp
  cases resp <;> simpa [ResponseInfo.hasKey] using h

end Receive

/-! ## The cookie of a request -/

section Request

variable {k : Kind} {args : List Value} {h : Heap} {hd : Header k.Opts} {st : PState}

/-- A request has as many keys as it counted. -/
theorem getSafeKeysArray_length (v : Value) :
    (KeysInfo.setKeys v).getSafeKeysArray.length = (KeysInfo.setKeys v).ncmds := by
  unfold KeysInfo.setKeys
  cases v with
  | array vs => simp [KeysInfo.getSafeKeysArray, KeysInfo.elements]
  | undefined | null | bool | number | string => rfl
  | _ => simp [Value.isObject, KeysInfo.getSafeKeysArray, KeysInfo.names]

omit [Runtime] in
/-- A fresh cookie that counts keys. -/
theorem initCookie_untouched {O : Type} (c : Command O) {kind : CookieKind} (hk : CountsKeys kind)
    (n : Nat) : Untouched (c.initCookie (Cookie.create kind n)) n := by
  unfold Command.initCookie Cookie.setCallback Cookie.create
  rcases hk with rfl | rfl
  all_goals
    split <;> refine ⟨rfl, rfl, rfl, rfl, rfl, ?_⟩ <;> intro hmode <;> first | rfl | cases hmode

/-- **The countdown starts at the number of commands**, which is the number of keys. -/
theorem counted_keys (hacc : accept k.cls args (Command.start h) = .done hd st)
    (hk : CountsKeys k.cls.cookieKind) :
    1 ≤ (ofState hd st).commands.ncmds ∧
      (ofState hd st).getKeyList.length = (ofState hd st).commands.ncmds ∧
      Untouched ((ofState hd st).createCookie k.cls) (ofState hd st).commands.ncmds := by
  obtain ⟨reqs, hreqs, _, hpos, hkeys⟩ := accept_lowered hacc
  obtain ⟨_, _, hsize, _, hr⟩ := accept_ready hacc none
  have hlist : k.cls.listSize hd.keys = hd.keys.ncmds := by
    rcases hk with hk | hk <;> cases k <;> first | rfl | cases hk
  have hn : (ofState hd st).commands.ncmds = hd.keys.ncmds := (hr.ncmds.trans hsize).trans hlist
  refine ⟨?_, ?_, ?_⟩
  · rw [hn, ← hlist]
    exact hpos
  · rw [hn]
    show hd.keys.getSafeKeysArray.length = _
    rw [hkeys]
    exact getSafeKeysArray_length _
  · unfold Command.createCookie
    rcases hk with hk | hk
    · simp only [hk, ofState]
      rw [show st.commands.ncmds = hd.keys.ncmds from hn]
      exact initCookie_untouched (ofState hd st) (.inl rfl) _
    · simp only [hk, ofState]
      exact initCookie_untouched (ofState hd st) (.inr rfl) _

/-- Every cookie calls the last argument back, and is of its class's kind. -/
theorem createCookie_callback (hacc : accept k.cls args (Command.start h) = .done hd st) :
    ((ofState hd st).createCookie k.cls).callback = lastArg args ∧
      ((ofState hd st).createCookie k.cls).kind = k.cls.cookieKind := by
  obtain ⟨hd', s₁, hi, hacc⟩ := Prog.bind_eq_done.mp hacc
  obtain ⟨_, s₂, _, hacc⟩ := Prog.bind_eq_done.mp hacc
  cases hacc
  have hcb := (initialize_callback hi).2
  unfold Command.createCookie
  cases hk : k.cls.cookieKind
  all_goals
    simp only [ofState]
    unfold Cookie.create
  · unfold Command.initCookie Cookie.setCallback
    split <;> simp [Cookie.initSpooledInfo, hcb]
  · unfold Command.initCookie Cookie.setCallback
    split <;> simp [Cookie.initSpooledInfo, hcb]
  · simp [Cookie.setCallback, Cookie.initSpooledInfo, hcb]
  · simp [Cookie.setCallback, hcb]

/-- A cancellation takes the key-less responses it makes up as ordinary ones. -/
theorem cancel_counted {c : Cookie} (hk : CountsKeys c.kind) (hlive : c.deletes = 0) (err : Int)
    (keys : List Value) :
    c.cancel err keys =
      Cookie.responses (keys.map (ResponseInfo.ofKey err)) { c with isCancelled := true } := by
  unfold Cookie.cancel
  rcases hk with hk | hk <;> simp [Cookie.touch, hlive, hk]

omit [Runtime] in
/-- A cookie that is being cancelled is untouched otherwise. -/
theorem Untouched.cancelled {c : Cookie} {n : Nat} (hun : Untouched c n) :
    Untouched { c with isCancelled := true } n :=
  ⟨hun.remaining, hun.deletes, hun.unused, hun.calls, hun.noError, hun.spooledInfo⟩

/-- **A cancellation with as many keys as the cookie waits for is a full answer.** -/
theorem cancel_answered {c : Cookie} {keys : List Value} (hkind : CountsKeys c.kind)
    (hun : Untouched c keys.length) (hpos : 0 < keys.length) (err : Int) :
    let c' := { c with isCancelled := true }
    let infos := keys.map (ResponseInfo.ofKey err)
    Answered c infos (fun m => c'.responses (infos.take m)) ∧
      c.cancel err keys = c'.responses infos := by
  intro c' infos
  have hlen : infos.length = keys.length := List.length_map _
  have hrun := answered_run (show Untouched c' infos.length from hlen ▸ hun.cancelled)
    (hlen ▸ hpos) (fun _ _ => .inl rfl)
    (by
      intro info hi
      obtain ⟨v, _, rfl⟩ := List.mem_map.mp hi
      rfl)
  exact ⟨⟨hrun.alive, hrun.destroyed, hrun.untouched, hrun.single, hrun.waiting, hrun.spooled⟩,
    cancel_counted hkind hun.deletes err _⟩

/-- **The answers of libcouchbase, as many as the cookie waits for, in any order.** -/
theorem receive_answered {c : Cookie} {rs : List Cookie.Response}
    (hun : Untouched c rs.length) (hpos : 0 < rs.length) (hrs : ∀ r ∈ rs, r.key ≠ []) :
    Answered c (rs.map fun r => c.responseInfo r) fun m => Cookie.receiveAll (rs.take m) c := by
  have hlen : (rs.map fun r => c.responseInfo r).length = rs.length := List.length_map _
  have hrun := answered_run
    (show Untouched c (rs.map fun r => c.responseInfo r).length from hlen ▸ hun) (hlen ▸ hpos)
    (by
      intro info hi
      obtain ⟨r, hr, rfl⟩ := List.mem_map.mp hi
      exact .inr (responseInfo_hasKey (hrs r hr)))
    (by
      intro info hi
      obtain ⟨r, _, rfl⟩ := List.mem_map.mp hi
      exact responseInfo_clean r)
  have heq : (fun m => Cookie.receiveAll (rs.take m) c) =
      fun m => c.responses ((rs.map fun r => c.responseInfo r).take m) := by
    funext m
    rw [receiveAll_eq, List.map_take]
  rw [heq]
  exact hrun

/-- **What the application hears of a key-value request.** Its cookie waits for as many
    responses as the request has commands and keys, and answers for any that many keyed responses
    of libcouchbase, in whatever order and with whatever statuses, and for a cancellation with
    its keys. -/
theorem plain_cookie_answered (hacc : accept k.cls args (Command.start h) = .done hd st)
    (hk : k.cls.cookieKind = .plain) :
    let cmd := ofState hd st
    let c := cmd.createCookie k.cls
    let n := cmd.commands.ncmds
    1 ≤ n ∧ cmd.getKeyList.length = n ∧ c.callback = lastArg args ∧
      (∀ rs : List Cookie.Response, rs.length = n → (∀ r ∈ rs, r.key ≠ []) →
        Answered c (rs.map fun r => c.responseInfo r) fun m => Cookie.receiveAll (rs.take m) c) ∧
      ∀ err,
        let c' := { c with isCancelled := true }
        let infos := cmd.getKeyList.map (ResponseInfo.ofKey err)
        Answered c infos (fun m => c'.responses (infos.take m)) ∧
          c.cancel err cmd.getKeyList = c'.responses infos := by
  intro cmd c n
  obtain ⟨hpos, hkeys, hun⟩ := counted_keys hacc (.inl hk)
  obtain ⟨hcb, hkind⟩ := createCookie_callback hacc
  refine ⟨hpos, hkeys, hcb, ?_, ?_⟩
  · intro rs hlen hrs
    refine receive_answered ?_ ?_ hrs
    · rw [hlen]
      exact hun
    · rw [hlen]
      exact hpos
  · intro err
    refine cancel_answered (hkind ▸ .inl hk) ?_ ?_ err
    · rw [hkeys]
      exact hun
    · rw [hkeys]
      exact hpos

end Request

end Proof

section Example

open scoped SmallRuntime

/-- A spooled get of two keys: the countdown starts at two. -/
theorem Proof.plain_cookie_answered_get :
    let args : List Value := [.array [.string "a", .string "b"],
      .object [("spooled", .bool true)], .function 1]
    ∃ hd st, Command.accept Kind.get.cls args (Command.start []) = .done hd st ∧
      1 ≤ (Command.ofState hd st).commands.ncmds ∧
      ((Command.ofState hd st).createCookie Kind.get.cls).callback = .function 1 := by
  intro args
  obtain ⟨hd, st, hacc, _⟩ := Outcome.exists_of_check
    (Command.accept Kind.get.cls args (Command.start [])) (fun _ _ => true)
    (by decide +kernel)
  obtain ⟨hpos, _, hcb, _⟩ := Proof.plain_cookie_answered hacc rfl
  exact ⟨hd, st, hacc, hpos, hcb⟩

end Example

end Couchnode
