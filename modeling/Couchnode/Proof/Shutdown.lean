import Couchnode.Proof.FailureReport

/-!
# Requests after `shutdown`

`shutdown` puts a fresh libcouchbase handle in place of the old one and destroys the old one in
an idle handler. Whatever is executed on the fresh handle fails at once (`FreshHandle`, what is
assumed of libcouchbase), and the failure is reported. But only the old handle delivers the
event that decides the connection. If it goes before that, `makeOperation` keeps queueing, and
nothing will ever take the queue up (`Loses`).

`shutdown_heard` is the promise over every run in which that does not happen.
-/

set_option autoImplicit false

namespace Couchnode

/-- The callback of the cookie was called with an error. -/
def Cookie.Heard (c : Cookie) : Prop :=
  ∃ i ∈ c.calls, i.fn = c.callback ∧ ∃ e ∈ i.args.head?, e.isUndefined = false

/-- A cancellation with one key is enough for the cookie to call back. -/
def Cookie.HearsOne (c : Cookie) : Prop :=
  c.kind = .stats ∨ c.kind = .http ∨ c.cbType = .single ∨ c.remaining = 1

namespace Proof

open Command Impl

variable [Runtime]

/-! ## A cookie that is cancelled with an error is heard -/

section Heard

variable {c : Cookie} {err : Int} {keys few : List Value} {n : Nat}

theorem errorObject_heard (herr : err ≠ LCB_SUCCESS) :
    (errorObject err).isUndefined = false := by
  rw [errorObject_undefined]
  simpa using herr

/-- Enough keys for a call: any in single mode, all of them in spooled mode. -/
theorem counted_heard (hk : CountsKeys c.kind) (hun : Untouched c keys.length)
    (herr : err ≠ LCB_SUCCESS) (hpos : 0 < few.length) (hle : few.length ≤ keys.length)
    (hall : c.cbType = .single ∨ few.length = keys.length) : (c.cancel err few).Heard := by
  have hcb : (c.cancel err few).callback = c.callback := by
    rw [cancel_counted hk hun.deletes]
    exact responses_callback _
  unfold Cookie.Heard
  rw [hcb]
  cases hmode : c.cbType with
  | single =>
    rw [(cancel_single _ hk hun hmode hle).1]
    refine ⟨_, List.mem_replicate.mpr ⟨Nat.ne_of_gt hpos, rfl⟩, rfl, _, rfl, ?_⟩
    exact errorObject_heard herr
  | spooled =>
    have hlen : few.length = keys.length := by
      rcases hall with hs | hlen
      · rw [hmode] at hs
        cases hs
      · exact hlen
    rw [(cancel_spooled _ hk hun hmode hle).1, if_pos ⟨hlen, hlen ▸ hpos⟩]
    refine ⟨_, List.mem_singleton_self _, rfl, ?_⟩
    have hany : (few.map (ResponseInfo.ofKey err)).any failed = true := by
      rw [List.any_eq_true]
      obtain ⟨v, hv⟩ := List.exists_mem_of_length_pos hpos
      exact ⟨_, List.mem_map_of_mem hv, decide_eq_true herr⟩
    unfold finalCall
    rw [hany]
    exact ⟨_, rfl, rfl⟩

/-- The cookies without keys report any cancellation. -/
theorem keyless_heard (hk : c.kind = .stats ∨ c.kind = .http) (hlive : c.deletes = 0)
    (herr : err ≠ LCB_SUCCESS) : (c.cancel err keys).Heard := by
  have hund := errorObject_heard herr
  unfold Cookie.cancel Cookie.Heard
  rcases hk with hk | hk
  all_goals
    simp [hk, Cookie.statsInvoke, Cookie.httpCancel, Cookie.invoke, Cookie.delete, Cookie.touch,
      hlive, hund]

end Heard

section Request

variable {k : Kind} {args : List Value} {h : Heap} {hd : Header k.Opts} {st : PState} {err : Int}

/-- A fresh cookie of a class without keys. -/
theorem createCookie_live : ((ofState hd st).createCookie k.cls).deletes = 0 := by
  unfold Command.createCookie
  cases k.cls.cookieKind
  all_goals
    simp only [ofState]
    unfold Cookie.create
    try unfold Command.initCookie
    unfold Cookie.setCallback
    first | rfl | (split <;> rfl)

omit [Runtime] in
theorem kind_cases (kind : CookieKind) :
    CountsKeys kind ∨ kind = .stats ∨ kind = .http := by
  cases kind
  · exact .inl (.inl rfl)
  · exact .inl (.inr rfl)
  · exact .inr (.inl rfl)
  · exact .inr (.inr rfl)

/-- **A request that fails when it is executed is heard.** -/
theorem direct_heard (hacc : accept k.cls args (Command.start h) = .done hd st)
    (herr : err ≠ LCB_SUCCESS) :
    (((ofState hd st).createCookie k.cls).cancel err (withCookie k hd st).getKeyList).Heard := by
  have hkind := (createCookie_callback hacc).2
  rcases kind_cases k.cls.cookieKind with hk | hk
  · obtain ⟨hpos, hlen, hun⟩ := counted_keys hacc hk
    rw [← hlen] at hpos hun
    exact counted_heard (hkind ▸ hk) hun herr hpos (Nat.le_refl _) (.inr rfl)
  · exact keyless_heard (hkind ▸ hk) (createCookie_live) herr

/-- **A queued request is, if one key is enough for its cookie.** -/
theorem queued_heard (hacc : accept k.cls args (Command.start h) = .done hd st)
    (herr : err ≠ LCB_SUCCESS) (hone : ((ofState hd st).createCookie k.cls).HearsOne) :
    (((ofState hd st).createCookie k.cls).cancel err (queued k hd st).getKeyList).Heard := by
  have hkind := (createCookie_callback hacc).2
  rcases kind_cases k.cls.cookieKind with hk | hk
  · obtain ⟨hpos, hlen, hun⟩ := counted_keys hacc hk
    rw [← hlen] at hpos hun
    refine counted_heard (hkind ▸ hk) hun herr (Nat.zero_lt_one) hpos ?_
    rcases hone with hs | hs | hs | hs
    · rw [hkind] at hs
      rcases hk with hk | hk <;> rw [hk] at hs <;> cases hs
    · rw [hkind] at hs
      rcases hk with hk | hk <;> rw [hk] at hs <;> cases hs
    · exact .inl hs
    · exact .inr (hun.remaining ▸ hs).symm
  · exact keyless_heard (hkind ▸ hk) (createCookie_live) herr

end Request

/-! ## Runs -/

section Run

variable {s s' : Impl} {a : Action} {as : List Action}

/-- Assumed of libcouchbase: nothing can be executed on a handle that was never connected. -/
def FreshHandle (a : Action) (s : Impl) : Prop :=
  match a with
  | .makeOperation _ _ err => s.isShutdown = true → err ≠ LCB_SUCCESS
  | .drain err => s.isShutdown = true → err ≠ LCB_SUCCESS
  | _ => True

/-- The old handle is destroyed while commands are queued; or a request is queued after
    that; or a request queued after `shutdown` is taken up, and its copy cannot report. -/
def Loses (a : Action) (s : Impl) : Prop :=
  match a with
  | .shutdownCb => s.pendingCommands ≠ []
  | .makeOperation k args _ =>
    s.connected = false ∧ s.alive = false ∧ ∃ hd st, Accepts s k args hd st
  | .drain _ => ∃ p ∈ s.front, .accepted p.id true ∈ s.log ∧ ∃ c ∈ p.cmd.cookie, ¬ c.HearsOne
  | _ => False

/-- A request was cancelled with an error, and its callback heard of it. -/
def Told (id : Nat) (log : List Event) : Prop :=
  ∃ err c, err ≠ LCB_SUCCESS ∧ .cancelled id err c ∈ log ∧ c.Heard

/-- What holds of a connection that is or will be shut down. -/
structure Closing (s : Impl) : Prop where
  ledger : Ledger s
  copies : ∀ p ∈ s.waiting, ∃ h args hd st,
    accept p.kind.cls args (Command.start h) = .done hd st ∧ p.cmd = queued p.kind hd st
  fired : s.idle = .fired → s.isShutdown = true ∧ s.pendingCommands = [] ∧ s.control = []
  armed : s.idle = .armed → s.isShutdown = true
  late : ∀ id, .accepted id true ∈ s.log →
    s.isShutdown = true ∧ ((∃ p ∈ s.waiting, p.id = id) ∨ Told id s.log)

theorem closing_start : Closing {} where
  ledger := ledger_start
  copies p hp := by cases hp
  fired h := by cases h
  armed h := by cases h
  late id h := by cases h

theorem moves_isShutdown (hm : Moves s a s') (h : s.isShutdown = true) : s'.isShutdown = true := by
  cases hm with
  | shutdown => rfl
  | popFront hc =>
    show (Impl.popCommand s).isShutdown = true
    unfold Impl.popCommand
    cases s.pendingCommands <;> exact h
  | _ => exact h

/-- Once the old handle is gone the queue is empty and stays so. -/
theorem moves_fired (hc : Closing s) (hok : ¬ Loses a s) (hm : Moves s a s') :
    (s'.idle = .fired → s'.isShutdown = true ∧ s'.pendingCommands = [] ∧ s'.control = []) ∧
      (s'.idle = .armed → s'.isShutdown = true) := by
  -- native frames, and events, are over when the handle is gone
  have busy {f : Frame} {rest : List Frame} (hf : s.control = f :: rest) {p : Prop}
      (hi : s.idle = .fired) : p := by
    rw [(hc.fired hi).2.2] at hf
    cases hf
  have dead {p : Prop} (ha : s.alive = true) (hi : s.idle = .fired) : p := by
    unfold alive at ha
    rw [hi] at ha
    cases ha
  cases hm with
  | queue hjs hacc hconn =>
    refine ⟨fun hi => ?_, hc.armed⟩
    have halive : s.alive = false := by
      unfold alive
      rw [show s.idle = .fired from hi]
      rfl
    exact absurd ⟨hconn, halive, _, _, hacc⟩ hok
  | shutdown => exact ⟨fun hi => (by cases hi), fun _ => rfl⟩
  | idleFired hctl hi =>
    have hp : s.pendingCommands = [] := by
      by_contra hne
      exact hok hne
    exact ⟨fun _ => ⟨hc.armed hi, hp, hctl⟩, fun ha => (by cases ha)⟩
  | configured hjs ha | failed hjs ha | error hjs ha => exact ⟨fun hi => dead ha hi, hc.armed⟩
  | drained hctl | scheduled hctl | scheduleFailed hctl | globalError hctl | ret hctl =>
    exact ⟨fun hi => busy hctl hi, hc.armed⟩
  | popFront hctl =>
    have hidle : (Impl.popCommand s).idle = s.idle := by
      unfold Impl.popCommand
      cases s.pendingCommands <;> rfl
    have hshut : (Impl.popCommand s).isShutdown = s.isShutdown := by
      unfold Impl.popCommand
      cases s.pendingCommands <;> rfl
    refine ⟨fun hi => busy hctl (hidle ▸ hi), fun ha => ?_⟩
    exact hshut.trans (hc.armed (hidle ▸ ha))
  | reject | execute | shutdownAgain | configIgnored => exact ⟨hc.fired, hc.armed⟩

theorem effect_copies (hc : Closing s) (he : Effect s a s') :
    ∀ p ∈ s'.waiting, ∃ h args hd st,
      accept p.kind.cls args (Command.start h) = .done hd st ∧ p.cmd = queued p.kind hd st := by
  intro p hp
  cases he with
  | silent hlog hevs hw hn => exact hc.copies p (hw ▸ hp)
  | passed hacc hconn hlog hw hn => exact hc.copies p (hw ▸ hp)
  | joined hacc hconn hlog hw hn =>
    rw [hw, List.mem_append, List.mem_singleton] at hp
    rcases hp with hp | rfl
    · exact hc.copies p hp
    · exact ⟨_, _, _, _, hacc, rfl⟩
  | served hf hw hck hlog hn => exact hc.copies p (hw ▸ List.mem_cons_of_mem _ hp)
  | dropped hg hf hw hck hlog hn => exact hc.copies p (hw ▸ List.mem_cons_of_mem _ hp)

omit [Runtime] in
/-- A request that was told stays told. -/
theorem Told.mono {id : Nat} {log evs : List Event} (h : Told id log) : Told id (log ++ evs) := by
  obtain ⟨err, c, herr, hm, hheard⟩ := h
  exact ⟨err, c, herr, List.mem_append_left _ hm, hheard⟩

theorem told_ofResult {id : Nat} {call : LcbCall} {err : Int} {cookie : Cookie}
    {keys : List Value} {log : List Event} (herr : err ≠ LCB_SUCCESS)
    (hheard : (cookie.cancel err keys).Heard) :
    Told id (log ++ Event.ofResult id call err cookie keys) :=
  ⟨err, _, herr, List.mem_append_right _ (cancelled_ofResult herr), hheard⟩

/-- The command at the head of the queue, if it was accepted after `shutdown`, is heard. -/
theorem head_heard {p : Pending} {err : Int} {cookie : Cookie} (hc : Closing s)
    (hok : ¬ Loses (.drain err) s) (hf : s.front = some p) (hp : p ∈ s.waiting)
    (hck : p.cmd.cookie = some cookie) (hacc : .accepted p.id true ∈ s.log) {e : Int}
    (he : e ≠ LCB_SUCCESS) : (cookie.cancel e p.cmd.getKeyList).Heard := by
  obtain ⟨h, args, hd, st, haccepted, hcmd⟩ := hc.copies p hp
  have hone : cookie.HearsOne := by
    by_contra hno
    exact hok ⟨p, hf, hacc, cookie, hck, hno⟩
  rw [hcmd] at hck ⊢
  cases hck
  exact queued_heard haccepted he hone

/-- A request accepted before the step still waits, or has been told: what a step takes off the
    queue it tells. -/
theorem late_kept (hc : Closing s) (hm : Moves s a s') {evs : List Event} {id : Nat}
    (hlog : s'.log = s.log ++ evs)
    (hgone : ∀ p ∈ s.waiting, p.id = id → s.isShutdown = true →
      p ∈ s'.waiting ∨ Told id s'.log)
    (hacc : .accepted id true ∈ s.log) :
    s'.isShutdown = true ∧ ((∃ p ∈ s'.waiting, p.id = id) ∨ Told id s'.log) := by
  obtain ⟨hs, hlate⟩ := hc.late id hacc
  refine ⟨moves_isShutdown hm hs, ?_⟩
  rcases hlate with ⟨p, hp, hid⟩ | ht
  · rcases hgone p hp hid hs with hp | ht
    · exact .inl ⟨p, hp, hid⟩
    · exact .inr ht
  · rw [hlog]
    exact .inr ht.mono

/-- **A request accepted after `shutdown` waits, or has been told.** -/
theorem effect_late (hc : Closing s) (hok : FreshHandle a s ∧ ¬ Loses a s) (hm : Moves s a s')
    (he : Effect s a s') : ∀ id, .accepted id true ∈ s'.log →
      s'.isShutdown = true ∧ ((∃ p ∈ s'.waiting, p.id = id) ∨ Told id s'.log) := by
  obtain ⟨hfresh, hloses⟩ := hok
  have hshut := moves_isShutdown hm
  intro id hacc
  cases he with
  | silent hlog hevs hw hn =>
    rw [hlog, List.mem_append] at hacc
    rcases hacc with hacc | hacc
    · exact late_kept hc hm hlog (fun p hp _ _ => .inl (hw ▸ hp)) hacc
    · cases hevs _ hacc
  | joined hacc' hconn hlog hw hn =>
    rw [hlog, List.mem_append, List.mem_singleton] at hacc
    rcases hacc with hacc | hacc
    · exact late_kept hc hm hlog (fun p hp _ _ => .inl (hw ▸ List.mem_append_left _ hp)) hacc
    · obtain ⟨rfl, hs⟩ := Event.accepted.inj hacc
      exact ⟨hshut hs.symm, .inl ⟨_, hw ▸ List.mem_append_right _ (List.mem_singleton_self _), rfl⟩⟩
  | passed hacc' hconn hlog hw hn =>
    rw [hlog, List.mem_append, List.mem_cons] at hacc
    rcases hacc with hacc | hacc | hacc
    · exact late_kept hc hm hlog (fun p hp _ _ => .inl (hw ▸ hp)) hacc
    · -- it is executed at once, and the handle that was shut down turns it away
      obtain ⟨rfl, hs⟩ := Event.accepted.inj hacc
      have herr := hfresh hs.symm
      refine ⟨hshut hs.symm, .inr ?_⟩
      rw [hlog, ← List.singleton_append, ← List.append_assoc]
      exact told_ofResult herr (direct_heard hacc' herr)
    · exact absurd hacc accepted_ofResult
  | @served err p call cookie _ hf hw hck hlog hn =>
    rw [hlog, List.mem_append] at hacc
    rcases hacc with hacc | hacc
    · refine late_kept hc hm hlog (fun q hq hid hs => ?_) hacc
      rw [hw, List.mem_cons] at hq
      rcases hq with rfl | hq
      · -- the head leaves the queue, and scheduling it fails as well
        right
        have herr := hfresh hs
        rw [hlog, ← hid]
        exact told_ofResult herr (head_heard hc hloses hf (hw ▸ List.mem_cons_self ..) hck
          (hid ▸ hacc) herr)
      · exact .inl hq
    · exact absurd hacc accepted_ofResult
  | @dropped err g p cookie _ hg hf hw hck hlog hn =>
    rw [hlog, List.mem_append] at hacc
    rcases hacc with hacc | hacc
    · refine late_kept hc hm hlog (fun q hq hid hs => ?_) hacc
      rw [hw, List.mem_cons] at hq
      rcases hq with rfl | hq
      · -- the head leaves the queue with the error of the connection
        right
        refine ⟨g, _, hg, ?_, head_heard hc hloses hf (hw ▸ List.mem_cons_self ..) hck
          (hid ▸ hacc) hg⟩
        rw [hlog, ← hid]
        exact List.mem_append_right _ (List.mem_singleton_self _)
      · exact .inl hq
    · simp at hacc

theorem step_closing (hc : Closing s) (hok : FreshHandle a s ∧ ¬ Loses a s)
    (hstep : Impl.step a s = some s') : Closing s' := by
  have hm := step_moves hstep
  have he := step_effect hc.ledger hstep
  obtain ⟨hfired, harmed⟩ := moves_fired hc hok.2 hm
  exact ⟨step_ledger hc.ledger hstep, effect_copies hc he, hfired, harmed, effect_late hc hok hm he⟩

/-- **Nothing is lost after `shutdown`** in a run without a losing step: when the old handle has
    been destroyed, the queue is empty and every request accepted since has been told. -/
theorem shutdown_heard (h : Impl.run as = some s)
    (hfresh : Run.Along Impl.step FreshHandle {} as)
    (hok : Run.Along Impl.step (fun a s => ¬ Loses a s) {} as)
    (hidle : s.idle = .fired) :
    s.pendingCommands = [] ∧ ∀ id, .accepted id true ∈ s.log → Told id s.log := by
  have hc : Closing s :=
    Run.exec_inv (fun a s s' hc hok hst => step_closing hc hok hst) closing_start
      (hfresh.and hok) h
  obtain ⟨_, hp, hctl⟩ := hc.fired hidle
  refine ⟨hp, fun id hacc => ?_⟩
  rcases (hc.late id hacc).2 with ⟨p, hm, _⟩ | ht
  · rw [waiting_of_no_pop (by rw [hctl]; rfl), hp] at hm
    cases hm
  · exact ht

end Run

end Proof

section Example

open scoped SmallRuntime

/-- The connection comes up and is shut down, and a get is issued before the idle handler runs. -/
def lateGet : List Action :=
  [.onConfig true, .ret, .drain 0, .shutdown, .makeOperation .get oneKeyGet 1, .shutdownCb]

/-- The connection is shut down before it comes up, and a get is issued after that. -/
def lostGet : List Action := [.shutdown, .shutdownCb, .makeOperation .get oneKeyGet 1]

/-- Whatever is executed after `shutdown` fails. -/
def failsFresh (a : Action) (s : Impl) : Bool :=
  match a with
  | .makeOperation _ _ err | .drain err => !s.isShutdown || err ≠ LCB_SUCCESS
  | _ => true

theorem Proof.failsFresh_fresh (a : Action) (s : Impl) (h : failsFresh a s = true) :
    Proof.FreshHandle a s := by
  cases a with
  | makeOperation k args err | drain err =>
    intro hs
    simpa [failsFresh, hs] using h
  | shutdown | onConfig | errorCallback | shutdownCb | ret => trivial

theorem Proof.shutdown_heard_get : ∃ s, Impl.run lateGet = some s ∧ s.idle = .fired ∧
    .accepted 0 true ∈ s.log ∧ s.pendingCommands = [] ∧ Proof.Told 0 s.log := by
  obtain ⟨s, hs, htest⟩ := (Option.any_eq_true _ _).mp
    (show (Impl.run lateGet).any (fun s => s.idle = .fired &&
      s.log.any fun e => match e with
        | .accepted i b => i = 0 && b
        | _ => false) = true by decide +kernel)
  obtain ⟨hidle, hlog⟩ := Bool.and_eq_true_iff.mp htest
  obtain ⟨e, he, hmatch⟩ := List.any_eq_true.mp hlog
  have hacc : .accepted 0 true ∈ s.log := by
    cases e with
    | accepted i b =>
      obtain ⟨rfl, rfl⟩ : i = 0 ∧ b = true := by simpa using hmatch
      exact he
    | connect | rejected | executed | cancelled => cases hmatch
  have hfresh : Run.Along Impl.step Proof.FreshHandle {} lateGet :=
    Run.along_of_test _ Proof.failsFresh_fresh (by decide +kernel)
  -- nothing is queued in this run at all
  have hok : Run.Along Impl.step (fun a s => ¬ Proof.Loses a s) {} lateGet := by
    refine Run.along_of_test (fun _ s => s.pendingCommands.isEmpty && s.alive) ?_
      (by decide +kernel)
    intro a s htest
    obtain ⟨hp, ha⟩ : s.pendingCommands = [] ∧ s.alive = true := by simpa using htest
    unfold Proof.Loses
    cases a with
    | shutdownCb => simpa using hp
    | makeOperation k args err => simp [ha]
    | drain err =>
      rintro ⟨p, hf, _⟩
      unfold Impl.front at hf
      split at hf
      · rw [hp] at hf
        cases hf
      · cases hf
    | shutdown | onConfig | errorCallback | ret => exact id
  have hidle' := of_decide_eq_true hidle
  obtain ⟨hp, htold⟩ := Proof.shutdown_heard hs hfresh hok hidle'
  exact ⟨s, hs, hidle', hacc, hp, htold 0 hacc⟩

/-- The get stays in the queue of a connection nothing will ever happen on. -/
theorem Proof.shutdown_lost : ∃ s, Impl.run lostGet = some s ∧
    Run.Along Impl.step Proof.FreshHandle {} lostGet ∧ s.isShutdown = true ∧ s.idle = .fired ∧
    s.pendingCommands ≠ [] ∧ (s.history 0).length = 1 := by
  obtain ⟨s, hs, htest⟩ := (Option.any_eq_true _ _).mp
    (show (Impl.run lostGet).any (fun s => s.isShutdown && s.idle = .fired &&
      s.pendingCommands.length = 1 && (s.history 0).length = 1) = true by decide +kernel)
  obtain ⟨⟨⟨hshut, hidle⟩, hp⟩, hh⟩ : ((s.isShutdown = true ∧ s.idle = .fired) ∧
      s.pendingCommands.length = 1) ∧ (s.history 0).length = 1 := by
    simpa using htest
  refine ⟨s, hs, Run.along_of_test _ Proof.failsFresh_fresh (by decide +kernel), hshut, hidle, ?_, hh⟩
  intro hnil
  rw [hnil] at hp
  cases hp

end Example

end Couchnode
