import Couchnode.Native.Traffic
import Couchnode.Proof.FailureReport
import Couchnode.Proof.Observe
import Couchnode.Proof.Progress
import Couchnode.Proof.Stats

/-!
# The life of one call

A request and its cookie fit: the cookie waits for as many responses as there are commands, and
a key-value command has a key libcouchbase can answer by. `Given` says so, and it is all that is
kept of where a cookie came from (`accept_given`).

From there every answer libcouchbase may give leaves the call `Underway`, with its cookie alive,
or makes it `Over`, with its cookie deleted once and its application told (`answer_underway`,
`answer_over`). A call that is not taken has its cookie cancelled instead; with no more keys than
the cookie waits for, that is safe too (`cancel_safe`).
-/

set_option autoImplicit false

namespace Couchnode

namespace Proof

open Command

variable [Runtime]

/-! ## The keys of a request -/

section Keys

variable {k : Kind} {glob : k.Opts} {key : Bytes} {hashkey : Option Bytes}
  {params : Option Value} {req : LcbReq}

/-- A request by key is about that key. -/
theorem request_key (hk : ByKey k) (h : k.request glob (some key) hashkey params = some req) :
    req.key = some key := by
  cases k with
  | get | lock | arithmetic | delete | touch | endure =>
    obtain ⟨_, _, rfl⟩ := Option.map_eq_some_iff.mp h
    rfl
  | store op =>
    change StoreCommand.request op glob (some key) hashkey params = some req at h
    unfold StoreCommand.request at h
    simp only [Option.bind_eq_bind, Option.bind_eq_some_iff] at h
    obtain ⟨_, _, _, _, _, _, _, _, ⟨_, _⟩, _, h⟩ := h
    cases h
    rfl
  | unlock =>
    change UnlockCommand.request glob (some key) hashkey params = some req at h
    unfold UnlockCommand.request at h
    simp only [Option.bind_eq_bind, Option.bind_eq_some_iff] at h
    obtain ⟨_, _, _, _, h⟩ := h
    split at h
    · cases h
      rfl
    · cases h
  | observe =>
    cases h
    rfl
  | stats => exact absurd rfl hk.1
  | http => exact absurd rfl hk.2

theorem byKey_noDefault {k : Kind} (hk : ByKey k) : k.cls.getDefaultString = none := by
  cases k with
  | stats => exact absurd rfl hk.1
  | http => exact absurd rfl hk.2
  | _ => rfl

/-- A key that is backed by a string has bytes. -/
theorem backedString_ne {v : Option Value} {bs : Bytes} (h : backedString none v = some bs) :
    bs ≠ [] := by
  cases v with
  | none => cases h
  | some v =>
    unfold backedString at h
    simp only at h
    split at h
    · next hc =>
      cases h
      simp only [Bool.and_eq_true, decide_eq_true_eq] at hc
      exact hc.2
    · cases h

/-- **A command by key has one**: the text of a string, and not empty. -/
theorem itemRequest_keyed (hk : ByKey k) {hd : Header k.Opts} {item : Option Value × Option Value}
    (h : itemRequest k.cls k.request hd item = some req) :
    ∃ s : String, req.key = some (utf8 s) ∧ utf8 s ≠ [] := by
  unfold itemRequest at h
  simp only [Option.bind_eq_bind, Option.bind_eq_some_iff] at h
  obtain ⟨hashkey, _, bs, hbs, h⟩ := h
  rw [byKey_noDefault hk] at hbs
  have hne := backedString_ne hbs
  unfold backedString at hbs
  split at hbs
  · split at hbs
    · cases hbs
      exact ⟨_, request_key hk h, hne⟩
    · cases hbs
  · cases hbs

omit [Runtime] in
/-- Every command has a key to be answered by. -/
def Keys (reqs : List LcbReq) : Prop :=
  ∀ req ∈ reqs, ∃ s : String, req.key = some (utf8 s) ∧ utf8 s ≠ []

omit [Runtime] in
theorem Keys.length {reqs : List LcbReq} (h : Keys reqs) :
    (reqs.filterMap (·.key)).length = reqs.length := by
  induction reqs with
  | nil => rfl
  | cons req reqs ih =>
    obtain ⟨s, hkey, _⟩ := h req List.mem_cons_self
    rw [List.filterMap_cons_some hkey, List.length_cons, List.length_cons,
      ih fun r hr => h r (List.mem_cons_of_mem _ hr)]

omit [Runtime] in
theorem Keys.text {reqs : List LcbReq} (h : Keys reqs) {bs : Bytes}
    (hm : bs ∈ reqs.filterMap (·.key)) : ∃ s : String, bs = utf8 s ∧ bs ≠ [] := by
  obtain ⟨req, hr, hkey⟩ := List.mem_filterMap.mp hm
  obtain ⟨s, hs, hne⟩ := h req hr
  rw [hkey] at hs
  cases hs
  exact ⟨s, rfl, hne⟩

omit [Runtime] in
theorem Keys.ne_nil {reqs : List LcbReq} (h : Keys reqs) {bs : Bytes}
    (hm : bs ∈ reqs.filterMap (·.key)) : bs ≠ [] := by
  obtain ⟨_, _, hne⟩ := h.text hm
  exact hne

end Keys

/-! ## A cookie and its request -/

/-- Nobody has heard of the cookie yet. -/
structure Unheard (c : Cookie) : Prop where
  deletes : c.deletes = 0
  unused : c.usedAfterDelete = false
  calls : c.calls = []

/-- The cookie of a request of class `k` that comes to the commands `reqs`. -/
structure Given (k : Kind) (args : List Value) (c : Cookie) (reqs : List LcbReq) : Prop where
  kind : c.kind = k.cls.cookieKind
  callback : c.callback = lastArg args
  unheard : Unheard c
  counts : CountsKeys k.cls.cookieKind → Untouched c reqs.length ∧ 0 < reqs.length
  keys : ByKey k → Keys reqs

section Accepted

variable {k : Kind} {args : List Value} {h : Heap} {hd : Header k.Opts} {st : PState}

theorem byKey_counts : ByKey k ↔ CountsKeys k.cls.cookieKind := by
  cases k <;> simp [ByKey, CountsKeys, Kind.cls, GetCommand, LockCommand, StoreCommand,
    UnlockCommand, TouchCommand, ArithmeticCommand, DeleteCommand, ObserveCommand, EndureCommand,
    StatsCommand, HttpCommand]

/-- A cookie that counts no keys is as fresh. -/
theorem createCookie_unheard (hacc : accept k.cls args (Command.start h) = .done hd st) :
    Unheard ((ofState hd st).createCookie k.cls) := by
  by_cases hk : CountsKeys k.cls.cookieKind
  · obtain ⟨_, _, hun⟩ := counted_keys hacc hk
    exact ⟨hun.deletes, hun.unused, hun.calls⟩
  · unfold Command.createCookie
    cases hkind : k.cls.cookieKind with
    | plain => exact absurd (.inl hkind) hk
    | observe => exact absurd (.inr hkind) hk
    | stats | http => exact ⟨rfl, rfl, rfl⟩

/-- **The commands of an accepted request**, the copy of them that may have to wait, and the
    cookie, which fits them. -/
theorem accept_given (hacc : accept k.cls args (Command.start h) = .done hd st) :
    ∃ reqs, (k.cls.cookieKind = .http → reqs.length = 1) ∧
      Ready h.length st.heap (withCookie k hd st) reqs ∧
      Ready h.length (st.heap.alloc .object) (queued k hd st) reqs ∧
      Given k args ((ofState hd st).createCookie k.cls) reqs := by
  obtain ⟨reqs, hreqs, hsize, hhttp, hr⟩ :=
    accept_ready hacc (some ((ofState hd st).createCookie k.cls))
  obtain ⟨hcp, _, _⟩ := makePersistent_ready hr
  obtain ⟨hcb, hkind⟩ := createCookie_callback hacc
  refine ⟨_, ?_, hr, hcp, hkind, hcb, createCookie_unheard hacc, ?_, ?_⟩
  · intro hk
    rw [hsize]
    exact hhttp hk
  · intro hk
    obtain ⟨hpos, _, hun⟩ := counted_keys hacc hk
    have hn : (ofState hd st).commands.ncmds = (lowered (k.cls.listSize hd.keys) reqs).length :=
      hr.ncmds
    rw [hn] at hun hpos
    exact ⟨hun, hpos⟩
  · intro hk
    -- one request for each key, and nothing is added
    obtain ⟨_, _, _, _, hkeys⟩ := accept_lowered hacc
    have hlen : reqs.length = k.cls.listSize hd.keys := by
      rw [← (forall₂_of_mapM hreqs).length_eq, hk.listSize, hkeys]
      exact items_length _
    have hall : lowered (k.cls.listSize hd.keys) reqs = reqs := by
      rw [lowered, hlen, Nat.sub_self, List.replicate_zero, List.append_nil]
    rw [hall]
    intro req hreq
    obtain ⟨i, hi, rfl⟩ := List.getElem_of_mem hreq
    have hitem := (List.forall₂_iff_get.mp (forall₂_of_mapM hreqs)).2 i
      (by rw [(forall₂_of_mapM hreqs).length_eq]; exact hi) hi
    exact itemRequest_keyed hk hitem

end Accepted

/-! ## Answers -/

section Answers

/-- The keys libcouchbase has to answer. -/
def keysAsked (call : LcbCall) : List Bytes := call.cmds.filterMap (·.key)

/-- A cookie that made one call of its callback and is gone. -/
structure ToldOnce (callback : Value) (c : Cookie) : Prop where
  deletes : c.deletes = 1
  unused : c.usedAfterDelete = false
  once : ∃ as, c.calls = [{ fn := callback, args := as }]

/-- A call that still has answers to come, with the cookie `c₀` it was given. -/
structure Underway (c₀ : Cookie) (f : Flight) : Prop where
  given : Given f.kind f.args c₀ f.call.cmds
  plain : f.kind.cls.cookieKind = .plain → ∃ rs, f.heard = rs.map .keyed ∧
    f.cookie = Cookie.receiveAll rs c₀ ∧ (rs.map (·.key) ++ f.owed).Perm (keysAsked f.call) ∧
    f.owed ≠ []
  other : f.kind.cls.cookieKind ≠ .plain → Unheard f.cookie ∧ f.cookie.callback = lastArg f.args

/-- A call that has had its last answer. -/
structure Over (c₀ : Cookie) (f : Flight) : Prop where
  given : Given f.kind f.args c₀ f.call.cmds
  deletes : f.cookie.deletes = 1
  unused : f.cookie.usedAfterDelete = false
  plain : f.kind.cls.cookieKind = .plain → ∃ rs, f.heard = rs.map .keyed ∧
    (rs.map (·.key)).Perm (keysAsked f.call) ∧ f.cookie = Cookie.receiveAll rs c₀ ∧
    Answered c₀ (rs.map fun r => c₀.responseInfo r) fun m => Cookie.receiveAll (rs.take m) c₀
  other : f.kind.cls.cookieKind ≠ .plain → ToldOnce (lastArg f.args) f.cookie

variable {c c₀ c' : Cookie} {f g : Flight} {a : Answer} {k : Kind} {args : List Value}
  {reqs : List LcbReq}

/-- The class of a key-value command. -/
theorem plain_byKey (hk : k.cls.cookieKind = .plain) : ByKey k := by
  constructor
  · rintro rfl
    cases hk
  · rintro rfl
    cases hk

/-- **Any full set of answers to the keys**, in any order, is a full answer. -/
theorem Given.answered (hg : Given k args c reqs) (hk : k.cls.cookieKind = .plain)
    {rs : List Cookie.Response} (hrs : (rs.map (·.key)).Perm (reqs.filterMap (·.key))) :
    Answered c (rs.map fun r => c.responseInfo r) fun m => Cookie.receiveAll (rs.take m) c := by
  have hkeys := hg.keys (plain_byKey hk)
  obtain ⟨hun, hpos⟩ := hg.counts (.inl hk)
  have hlen : rs.length = reqs.length := by
    rw [← List.length_map (·.key), hrs.length_eq, hkeys.length]
  rw [← hlen] at hun hpos
  refine receive_answered hun hpos ?_
  intro r hr
  exact hkeys.ne_nil (hrs.mem_iff.mp (List.mem_map_of_mem hr))

omit [Runtime] in
/-- A response to each of some keys. -/
theorem keys_of_owed (owed : List Bytes) :
    (owed.map fun key => ({ err := 0, key := key, resp := .unlock } : Cookie.Response)).map (·.key)
      = owed := by
  rw [List.map_map]
  exact List.map_id owed

/-- **In flight the cookie is alive**, and has told of what came in so far. -/
theorem Underway.alive (hu : Underway c₀ f) :
    f.cookie.deletes = 0 ∧ f.cookie.usedAfterDelete = false := by
  by_cases hk : f.kind.cls.cookieKind = .plain
  · obtain ⟨rs, _, hcookie, hperm, hne⟩ := hu.plain hk
    -- were the rest answered too, it would be a full answer, and this is not the end of it
    let rest : List Cookie.Response :=
      f.owed.map fun key => { err := 0, key := key, resp := .unlock }
    have hall : ((rs ++ rest).map (·.key)).Perm (keysAsked f.call) := by
      rw [List.map_append, keys_of_owed]
      exact hperm
    have hans := hu.given.answered hk hall
    have hlt : rs.length < ((rs ++ rest).map fun r => c₀.responseInfo r).length := by
      have := List.length_pos_iff.mpr hne
      simp only [List.length_map, List.length_append, rest]
      omega
    have hpart : (rs ++ rest).take rs.length = rs := List.take_left' rfl
    have halive := hans.alive _ hlt
    have hunused := hans.untouched _ (Nat.le_of_lt hlt)
    rw [hpart, ← hcookie] at halive hunused
    exact ⟨halive, hunused⟩
  · obtain ⟨hun, _⟩ := hu.other hk
    exact ⟨hun.deletes, hun.unused⟩

omit [Runtime] in
theorem Unheard.touch (h : Unheard c) : c.touch = c := if_pos h.deletes

omit [Runtime] in
/-- What an unheard cookie says when it is told to stop. -/
theorem Unheard.stop (h : Unheard c) (as : List Value) :
    ToldOnce c.callback (c.invoke as).delete := by
  refine ⟨?_, ?_, as, ?_⟩ <;>
    simp [Cookie.invoke, Cookie.delete, Cookie.touch, h.deletes, h.unused, h.calls]

/-! ### Statistics -/

theorem addStat_keeps (h : Unheard c) (endpoint : Bytes) (resp : StatResp) :
    Unheard (c.addStat endpoint resp) ∧ (c.addStat endpoint resp).callback = c.callback := by
  unfold Cookie.addStat
  rw [h.touch]
  dsimp only
  split
  · split <;> exact ⟨⟨h.deletes, h.unused, h.calls⟩, rfl⟩
  · exact ⟨⟨h.deletes, h.unused, h.calls⟩, rfl⟩
  · exact ⟨h, rfl⟩

omit [Runtime] in
theorem latchError_keeps (h : Unheard c) (err : Int) :
    Unheard (c.latchError err) ∧ (c.latchError err).callback = c.callback := by
  rw [latchError_eq h.deletes]
  exact ⟨⟨h.deletes, h.unused, h.calls⟩, rfl⟩

theorem statsUpdate_keeps (h : Unheard c) {r : Int × Option StatResp} (hl : ¬ EndsStats r) :
    Unheard (c.statsUpdate r) ∧ (c.statsUpdate r).callback = c.callback := by
  obtain ⟨err, resp⟩ := r
  obtain ⟨hun, hcb⟩ := latchError_keeps h err
  unfold EndsStats at hl
  push Not at hl
  obtain ⟨resp, rfl, hep⟩ := hl
  obtain ⟨endpoint, hep⟩ := Option.ne_none_iff_exists'.mp hep
  obtain ⟨hs, hcb'⟩ := addStat_keeps hun endpoint resp
  have heq : c.statsUpdate (err, some resp) = (c.latchError err).addStat endpoint resp := by
    simp only [Cookie.statsUpdate, hep]
  rw [heq]
  exact ⟨hs, hcb'.trans hcb⟩

theorem statsUpdate_last (h : Unheard c) {r : Int × Option StatResp} (hl : EndsStats r) :
    ToldOnce c.callback (c.statsUpdate r) := by
  obtain ⟨hun, hcb⟩ := latchError_keeps h r.1
  have heq : c.statsUpdate r = (c.latchError r.1).statsInvoke (c.latchError r.1).lastError := by
    obtain ⟨err, resp⟩ := r
    cases resp with
    | none => rfl
    | some resp => simp only [Cookie.statsUpdate, hl resp rfl]
  rw [heq, ← hcb]
  exact hun.stop _

/-! ### Observe -/

theorem observeUpdate_keeps (h : Unheard c) {r : ObserveEvent} (hk : r.Keyed)
    (hc : c.observeUpdate r = some c') : Unheard c' ∧ c'.callback = c.callback := by
  have hk' : (ResponseInfo.ofObserve r.1 r.2).hasKey = true := hk
  have hlatch : Unheard (if r.1 ≠ LCB_SUCCESS then { c.touch with hasError := true } else c) ∧
      (if r.1 ≠ LCB_SUCCESS then { c.touch with hasError := true } else c).callback =
        c.callback := by
    rw [h.touch]
    split <;> exact ⟨⟨h.deletes, h.unused, h.calls⟩, rfl⟩
  unfold Cookie.observeUpdate at hc
  simp only [hk', Bool.not_true, Bool.false_eq_true, if_false, hlatch.1.touch] at hc
  split at hc
  · split at hc
    · cases hc
    · cases hc
      exact ⟨⟨hlatch.1.deletes, hlatch.1.unused, hlatch.1.calls⟩, hlatch.2⟩
  · cases hc
    exact ⟨⟨hlatch.1.deletes, hlatch.1.unused, hlatch.1.calls⟩, hlatch.2⟩
  · cases hc
    exact ⟨⟨hlatch.1.deletes, hlatch.1.unused, hlatch.1.calls⟩, hlatch.2⟩
  · cases hc

theorem observeUpdate_last (h : Unheard c) {r : ObserveEvent} (hk : ¬ r.Keyed)
    (hc : c.observeUpdate r = some c') : ToldOnce c.callback c' := by
  rw [observeUpdate_keyless h.deletes hk] at hc
  cases hc
  refine ⟨rfl, h.unused, (finalCall c (c.spooledInfo.getD []) c.hasError).args, ?_⟩
  simp only [h.calls]
  rfl

/-! ### One answer -/

/-- A response to an observe call without a key is the last. -/
theorem observed_keyed {r : Int × ObserveResp} (hg : Given k args c reqs)
    (hk : k.cls.cookieKind = .observe)
    (hr : r.2.key = none ∨ ∃ key, r.2.key = some key ∧ some key ∈ reqs.map (·.key)) :
    ObserveEvent.Keyed r ↔ r.2.key ≠ none := by
  unfold ObserveEvent.Keyed ObserveEvent.info ResponseInfo.hasKey ResponseInfo.ofObserve
  rcases hr with hr | ⟨key, hr, hmem⟩
  · simp [hr]
  · have hkeys := hg.keys (byKey_counts.mpr (.inr hk))
    obtain ⟨req, hreq, hkey⟩ := List.mem_map.mp hmem
    obtain ⟨bs, hbs, hne⟩ := hkeys req hreq
    rw [hkey] at hbs
    cases hbs
    simp [hr, hne]

theorem receiveAll_snoc (rs : List Cookie.Response) (r : Cookie.Response) :
    Cookie.receiveAll (rs ++ [r]) c = (Cookie.receiveAll rs c).receive r := by
  unfold Cookie.receiveAll
  rw [List.foldl_append]
  rfl

/-- What one accepted answer does to a call. -/
theorem answer_eq (h : f.answer a = some g) :
    f.expects a = true ∧ ∃ cookie, a.deliver f.cookie = some cookie ∧
      g = { f with cookie := cookie, owed := a.pay f.owed, heard := f.heard ++ [a] } := by
  unfold Flight.answer at h
  split at h
  · next he =>
    obtain ⟨cookie, hd, rfl⟩ := Option.map_eq_some_iff.mp h
    exact ⟨he, cookie, hd, rfl⟩
  · cases h

/-- An answer is of the class of the call. -/
theorem expects_suits (h : f.expects a = true) : a.suits f.kind.cls.cookieKind = true := by
  unfold Flight.expects at h
  rw [Bool.and_eq_true] at h
  exact h.1

/-- **An answer to a key-value call**: one key less is owed. -/
theorem Underway.keyed (hu : Underway c₀ f) (hk : f.kind.cls.cookieKind = .plain)
    (h : f.answer a = some g) :
    ∃ rs, g.heard = rs.map .keyed ∧ g.cookie = Cookie.receiveAll rs c₀ ∧
      (rs.map (·.key) ++ g.owed).Perm (keysAsked f.call) ∧ (a.isLast f.owed ↔ g.owed = []) := by
  obtain ⟨he, cookie, hd, rfl⟩ := answer_eq h
  have hs := expects_suits he
  rw [hk] at hs
  cases a with
  | keyed r =>
    obtain ⟨rs, hheard, hcookie, hperm, _⟩ := hu.plain hk
    have hmem : r.key ∈ f.owed := by
      simpa [Flight.expects, Answer.suits, hk] using he
    cases hd
    refine ⟨rs ++ [r], ?_, ?_, ?_, ?_⟩
    · show f.heard ++ [.keyed r] = _
      rw [hheard, List.map_append]
      rfl
    · rw [receiveAll_snoc, ← hcookie]
    · show ((rs ++ [r]).map (·.key) ++ f.owed.erase r.key).Perm _
      rw [List.map_append, List.append_assoc]
      exact ((List.perm_cons_erase hmem).symm.append_left _).trans hperm
    · exact decide_eq_true_iff
  | observed | stat | http => cases hs

/-- **An answer to any other call**: the last one ends it. -/
theorem Underway.unkeyed (hu : Underway c₀ f) (hk : f.kind.cls.cookieKind ≠ .plain)
    (h : f.answer a = some g) :
    if a.isLast f.owed then ToldOnce (lastArg f.args) g.cookie
    else Unheard g.cookie ∧ g.cookie.callback = lastArg f.args := by
  obtain ⟨he, cookie, hd, rfl⟩ := answer_eq h
  have hs := expects_suits he
  obtain ⟨hun, hcb⟩ := hu.other hk
  rw [← hcb]
  cases a with
  | keyed r =>
    cases hkind : f.kind.cls.cookieKind with
    | plain => exact absurd hkind hk
    | observe | stats | http =>
      rw [hkind] at hs
      cases hs
  | observed r =>
    have hkind : f.kind.cls.cookieKind = .observe := by
      cases hkind : f.kind.cls.cookieKind with
      | observe => rfl
      | plain | stats | http =>
        rw [hkind] at hs
        cases hs
    have hr : r.2.key = none ∨ ∃ key, r.2.key = some key ∧
        some key ∈ f.call.cmds.map (·.key) := by
      cases hkey : r.2.key with
      | none => exact .inl rfl
      | some key =>
        right
        simpa [Flight.expects, Answer.suits, hkind, hkey] using he
    have hkeyed := observed_keyed hu.given hkind hr
    cases hkey : r.2.key with
    | none =>
      rw [if_pos (show Answer.isLast f.owed (.observed r) = true by simp [Answer.isLast, hkey])]
      exact observeUpdate_last hun (fun hy => hkeyed.mp hy hkey) hd
    | some key =>
      rw [if_neg (show ¬ Answer.isLast f.owed (.observed r) = true by simp [Answer.isLast, hkey])]
      exact observeUpdate_keeps hun (hkeyed.mpr (by simp [hkey])) hd
  | stat r =>
    cases hd
    have hend : Answer.isLast f.owed (.stat r) = true ↔ EndsStats r := by
      obtain ⟨err, resp⟩ := r
      cases resp <;> simp [Answer.isLast, EndsStats]
    by_cases hl : EndsStats r
    · rw [if_pos (hend.mpr hl)]
      exact statsUpdate_last hun hl
    · rw [if_neg fun h => hl (hend.mp h)]
      exact statsUpdate_keeps hun hl
  | http err resp =>
    cases hd
    exact hun.stop _

theorem answer_fields (h : f.answer a = some g) :
    g.id = f.id ∧ g.kind = f.kind ∧ g.args = f.args ∧ g.call = f.call := by
  obtain ⟨_, _, _, rfl⟩ := answer_eq h
  exact ⟨rfl, rfl, rfl, rfl⟩

/-- **Every answer but the last leaves the call underway.** -/
theorem answer_underway (hu : Underway c₀ f) (h : f.answer a = some g)
    (hl : a.isLast f.owed = false) : Underway c₀ g := by
  have hgiven := hu.given
  obtain ⟨_, cookie, _, hg⟩ := answer_eq h
  refine ⟨?_, ?_, ?_⟩
  · rw [hg]
    exact hgiven
  · intro hk
    have hk' : f.kind.cls.cookieKind = .plain := by rwa [hg] at hk
    obtain ⟨rs, hheard, hcookie, hperm, hlast⟩ := hu.keyed hk' h
    refine ⟨rs, hheard, hcookie, ?_, ?_⟩
    · rw [(answer_fields h).2.2.2]
      exact hperm
    · intro hnil
      rw [hlast.mpr hnil] at hl
      cases hl
  · intro hk
    have hk' : f.kind.cls.cookieKind ≠ .plain := by rwa [hg] at hk
    have hother := hu.unkeyed hk' h
    rw [hl, if_neg Bool.false_ne_true] at hother
    rw [(answer_fields h).2.2.1]
    exact hother

/-- **The last answer ends the call**: the cookie is deleted, once, and the application has been
    told of everything. -/
theorem answer_over (hu : Underway c₀ f) (h : f.answer a = some g)
    (hl : a.isLast f.owed = true) : Over c₀ g := by
  have hgiven := hu.given
  obtain ⟨hid, hkind, hargs, hcall⟩ := answer_fields h
  have hgiven' : Given g.kind g.args c₀ g.call.cmds := by
    obtain ⟨_, cookie, _, hg⟩ := answer_eq h
    rw [hg]
    exact hgiven
  by_cases hk : f.kind.cls.cookieKind = .plain
  · obtain ⟨rs, hheard, hcookie, hperm, hlast⟩ := hu.keyed hk h
    rw [hlast.mp hl, List.append_nil] at hperm
    have hans := hgiven.answered hk hperm
    have hall : rs.take (rs.map fun r => c₀.responseInfo r).length = rs := by
      rw [List.length_map, List.take_length]
    have hdel := hans.destroyed
    have hunused := hans.untouched _ (Nat.le_refl _)
    rw [hall, ← hcookie] at hdel hunused
    refine ⟨hgiven', hdel, hunused, ?_, ?_⟩
    · intro _
      exact ⟨rs, hheard, hcall ▸ hperm, hcookie, hans⟩
    · intro hne
      rw [hkind] at hne
      exact absurd hk hne
  · have hother := hu.unkeyed hk h
    rw [if_pos hl, ← hargs] at hother
    refine ⟨hgiven', hother.deletes, hother.unused, ?_, ?_⟩
    · intro hp
      rw [hkind] at hp
      exact absurd hp hk
    · intro _
      exact hother

/-- A call that was just taken is underway. -/
theorem Given.takeoff (hg : Given f.kind f.args c f.call.cmds) (hc : f.cookie = c)
    (ho : f.owed = keysAsked f.call) (hh : f.heard = []) : Underway c f := by
  refine ⟨hg, ?_, ?_⟩
  · intro hk
    obtain ⟨_, hpos⟩ := hg.counts (.inl hk)
    refine ⟨[], hh, hc, ?_, ?_⟩
    · rw [ho]
      exact .refl _
    · intro hnil
      rw [← (hg.keys (plain_byKey hk)).length, ← keysAsked, ← ho, hnil] at hpos
      exact absurd hpos (Nat.lt_irrefl 0)
  · intro _
    rw [hc]
    exact ⟨hg.unheard, hg.callback⟩

/-! ## Cancellation -/

/-- A cookie that was cancelled without harm. -/
structure Cancelled (callback : Value) (c : Cookie) : Prop where
  deletes : c.deletes ≤ 1
  unused : c.usedAfterDelete = false
  calls : ∀ i ∈ c.calls, i.fn = callback

omit [Runtime] in
theorem ToldOnce.cancelled {callback : Value} (h : ToldOnce callback c) : Cancelled callback c := by
  obtain ⟨as, hcalls⟩ := h.once
  refine ⟨Nat.le_of_eq h.deletes, h.unused, ?_⟩
  intro i hi
  rw [hcalls, List.mem_singleton] at hi
  rw [hi]

/-- **A cancellation with no more keys than the cookie waits for is safe.** -/
theorem cancel_safe (hg : Given k args c reqs) (err : Int) {keys : List Value}
    (hfew : CountsKeys k.cls.cookieKind → keys.length ≤ reqs.length) :
    Cancelled (lastArg args) (c.cancel err keys) := by
  rw [← hg.callback]
  by_cases hk : CountsKeys k.cls.cookieKind
  · obtain ⟨hun, hpos⟩ := hg.counts hk
    have hlen : (keys.map (ResponseInfo.ofKey err)).length ≤ reqs.length := by
      rw [List.length_map]
      exact hfew hk
    rw [cancel_counted (hg.kind ▸ hk) hun.deletes]
    have hmodes : c.cbType = .single ∨ c.cbType = .spooled := by
      cases c.cbType <;> simp
    rcases hmodes with hmode | hmode
    · rw [responses_single (c := { c with isCancelled := true }) hun.deletes hun.remaining hmode hlen]
      refine ⟨?_, hun.unused, ?_⟩
      · show (if _ then 1 else 0) ≤ 1
        split <;> decide
      · intro i hi
        simp only [hun.calls, List.nil_append, List.mem_map] at hi
        obtain ⟨_, _, rfl⟩ := hi
        rfl
    · rw [responses_spooled (c := { c with isCancelled := true }) hun.deletes hun.remaining hmode
        (hun.spooledInfo hmode) (fun _ _ => .inl rfl) hlen]
      dsimp only
      split
      · refine ⟨Nat.le_refl 1, hun.unused, ?_⟩
        intro i hi
        simp only [hun.calls, List.nil_append, List.mem_singleton] at hi
        rw [hi]
        rfl
      · refine ⟨Nat.le_trans (Nat.le_of_eq hun.deletes) (Nat.zero_le 1), hun.unused, ?_⟩
        intro i hi
        simp only [hun.calls] at hi
        cases hi
  · have hkind := hg.kind
    unfold Cookie.cancel
    cases hc : k.cls.cookieKind with
    | plain => exact absurd (.inl hc) hk
    | observe => exact absurd (.inr hc) hk
    | stats | http =>
      rw [hkind, hc]
      exact (hg.unheard.stop _).cancelled

end Answers

end Proof

end Couchnode
