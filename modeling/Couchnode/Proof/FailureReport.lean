import Couchnode.Proof.Answers
import Couchnode.Proof.Settled

/-!
# How a deferred failure is reported

When `execute` fails, the cookie of the command is cancelled with the command's key list. The
copy a deferred command is run from was made by a constructor that does not carry the keys
over, so its list is `[undefined]` whatever the request was for (`queued_getKeyList`), while
its cookie still waits for every key. Whenever the queue gets to it, that is the report the
application hears (`run_reports`).

`deferred_report_iff` is exactly when that goes unnoticed: there was one key, and either the
report does not name it (single mode), or its name happens to be `undefined`.
-/

set_option autoImplicit false

namespace Couchnode

/-- The cookie after a command whose `execute` failed with `err` is cancelled. -/
def Command.reportFailure [Runtime] {O : Type} (c : Command O) (err : Int) : Option Cookie :=
  c.cookie.map fun cookie => cookie.cancel err c.getKeyList

/-- The cookie a request was cancelled with. -/
def Impl.cookieOf (id : Nat) (err : Int) (s : Impl) : Option Cookie :=
  s.log.findSome? fun e => match e with
    | .cancelled i e c => if i = id ∧ e = err then some c else none
    | _ => none

namespace Proof

open Command

section

variable [Runtime] {k : Kind} {args : List Value} {h : Heap} {hd : Header k.Opts} {st : PState}

/-- The copy constructor leaves the keys behind. -/
theorem queued_getKeyList : (queued k hd st).getKeyList = [.undefined] := rfl

theorem queued_cookie :
    (queued k hd st).cookie = some ((ofState hd st).createCookie k.cls) := rfl

variable {c : Cookie} {keys : List Value} {err : Int}

/-- A cancellation in single mode: one call per key, none of which names its key. -/
theorem cancel_single (err : Int) (hkind : CountsKeys c.kind) (hun : Untouched c keys.length)
    (hmode : c.cbType = .single) {few : List Value} (hle : few.length ≤ keys.length) :
    (c.cancel err few).calls =
        List.replicate few.length { fn := c.callback, args := [errorObject err, .object []] } ∧
      (c.cancel err few).deletes =
        if few.length = keys.length ∧ 0 < keys.length then 1 else 0 := by
  have hrun := responses_single (c := { c with isCancelled := true }) hun.deletes hun.remaining hmode
    (show (few.map (ResponseInfo.ofKey err)).length ≤ keys.length by
      rw [List.length_map]
      exact hle)
  rw [cancel_counted hkind hun.deletes, hrun]
  refine ⟨?_, by simp only [List.length_map]⟩
  simp only [hun.calls, List.nil_append, List.map_map]
  exact List.map_eq_replicate_iff.mpr fun _ _ => rfl

/-- A cancellation in spooled mode: nothing until the last key, then one call. -/
theorem cancel_spooled (err : Int) (hkind : CountsKeys c.kind) (hun : Untouched c keys.length)
    (hmode : c.cbType = .spooled) {few : List Value} (hle : few.length ≤ keys.length) :
    (c.cancel err few).calls =
        (if few.length = keys.length ∧ 0 < keys.length then
          [finalCall c (resultsOf (few.map (ResponseInfo.ofKey err)) [])
            ((few.map (ResponseInfo.ofKey err)).any failed)]
        else []) ∧
      (c.cancel err few).deletes =
        if few.length = keys.length ∧ 0 < keys.length then 1 else 0 := by
  have hrun := responses_spooled (c := { c with isCancelled := true }) hun.deletes hun.remaining hmode
    (hun.spooledInfo hmode) (fun _ _ => .inl rfl)
    (show (few.map (ResponseInfo.ofKey err)).length ≤ keys.length by
      rw [List.length_map]
      exact hle)
  rw [cancel_counted hkind hun.deletes, hrun]
  simp only [List.length_map]
  by_cases hall : few.length = keys.length ∧ 0 < keys.length
  · simp only [if_pos hall, hun.calls, hun.noError]
    exact ⟨rfl, trivial⟩
  · simp only [if_neg hall, hun.calls, hun.deletes]
    exact ⟨trivial, trivial⟩

/-- Two cancellations with one key each, in spooled mode, differ in its name only. -/
theorem finalCall_inj {v w : Value} :
    finalCall c (resultsOf [ResponseInfo.ofKey err v] []) ([ResponseInfo.ofKey err v].any failed) =
        finalCall c (resultsOf [ResponseInfo.ofKey err w] [])
          ([ResponseInfo.ofKey err w].any failed) ↔ v.toName = w.toName := by
  constructor
  · intro he
    simp only [finalCall, Invocation.mk.injEq, List.cons.injEq, Value.object.injEq, resultsOf,
      List.map_cons, List.map_nil, Assoc.writes_cons, Assoc.writes_nil, Assoc.set,
      spooledEntry, Prod.mk.injEq] at he
    exact he.2.2.1.1.1
  · intro he
    simp only [finalCall, resultsOf, List.map_cons, List.map_nil, spooledEntry,
      ResponseInfo.keyName, ResponseInfo.getKey, ResponseInfo.ofKey, he]
    rfl

/-- In single mode the copy's report is right when there is one key to report. -/
theorem copy_single (err : Int) (hkind : CountsKeys c.kind) (hun : Untouched c keys.length)
    (hmode : c.cbType = .single) (hpos : 0 < keys.length) :
    ((c.cancel err [.undefined]).calls = (c.cancel err keys).calls ∧
      (c.cancel err [.undefined]).deletes = 1) ↔ keys.length = 1 := by
  obtain ⟨hcalls, hdel⟩ := cancel_single err hkind hun hmode
    (show [Value.undefined].length ≤ keys.length from hpos)
  obtain ⟨hcalls', _⟩ := cancel_single err hkind hun hmode (Nat.le_refl keys.length)
  rw [hcalls, hcalls', hdel]
  constructor
  · rintro ⟨_, hone⟩
    by_cases h1 : [Value.undefined].length = keys.length ∧ 0 < keys.length
    · exact h1.1.symm
    · rw [if_neg h1] at hone
      cases hone
  · intro h1
    rw [h1]
    exact ⟨rfl, rfl⟩

/-- In spooled mode it also has to be called `undefined`. -/
theorem copy_spooled (err : Int) (hkind : CountsKeys c.kind) (hun : Untouched c keys.length)
    (hmode : c.cbType = .spooled) (hpos : 0 < keys.length) :
    ((c.cancel err [.undefined]).calls = (c.cancel err keys).calls ∧
      (c.cancel err [.undefined]).deletes = 1) ↔
      keys.length = 1 ∧ ∀ key ∈ keys, key.toName = "undefined" := by
  obtain ⟨hcalls, hdel⟩ := cancel_spooled err hkind hun hmode
    (show [Value.undefined].length ≤ keys.length from hpos)
  obtain ⟨hcalls', _⟩ := cancel_spooled err hkind hun hmode (Nat.le_refl keys.length)
  rw [if_pos ⟨rfl, hpos⟩] at hcalls'
  rw [hcalls, hcalls', hdel]
  constructor
  · rintro ⟨heq, hone⟩
    by_cases h1 : [Value.undefined].length = keys.length ∧ 0 < keys.length
    · obtain ⟨key, hkey⟩ := List.length_eq_one_iff.mp h1.1.symm
      rw [if_pos h1, hkey] at heq
      refine ⟨h1.1.symm, ?_⟩
      intro key' hmem
      rw [hkey, List.mem_singleton] at hmem
      rw [hmem]
      exact (finalCall_inj.mp (List.cons.inj heq).1).symm
    · rw [if_neg h1] at hone
      cases hone
  · rintro ⟨h1, hname⟩
    obtain ⟨key, hkey⟩ := List.length_eq_one_iff.mp h1
    have hundef : key.toName = "undefined" := by
      apply hname
      rw [hkey]
      exact List.mem_singleton_self key
    rw [h1, hkey]
    refine ⟨?_, rfl⟩
    exact congrArg (fun x => [x]) (finalCall_inj.mpr hundef.symm)

/-- **When the copy reports a failure as its original does**, which answers for all its keys. -/
theorem copy_report_iff (hacc : accept k.cls args (Command.start h) = .done hd st)
    (hk : k.cls.cookieKind = .plain) (err : Int) :
    let original := withCookie k hd st
    let cookie := (ofState hd st).createCookie k.cls
    let keys := original.getKeyList
    let infos := keys.map (ResponseInfo.ofKey err)
    let cancelled (m : Nat) := Cookie.responses (infos.take m) { cookie with isCancelled := true }
    let direct := cookie.cancel err keys
    ∃ deferred, (queued k hd st).reportFailure err = some deferred ∧
      Answered cookie infos cancelled ∧ direct = cancelled keys.length ∧
      ((deferred.calls = direct.calls ∧ deferred.deletes = 1) ↔
        keys.length = 1 ∧ (cookie.cbType = .single ∨ ∀ key ∈ keys, key.toName = "undefined")) := by
  intro original cookie keys infos cancelled direct
  obtain ⟨hpos, hlen, hun⟩ := counted_keys hacc (.inl hk)
  have hkind : CountsKeys cookie.kind := (createCookie_callback hacc).2 ▸ .inl hk
  have hun' : Untouched cookie keys.length := by
    show Untouched _ (ofState hd st).getKeyList.length
    rw [hlen]
    exact hun
  have hpos' : 0 < keys.length := by
    show 0 < (ofState hd st).getKeyList.length
    rw [hlen]
    exact hpos
  obtain ⟨hans, hdirect⟩ := cancel_answered hkind hun' hpos' err
  refine ⟨cookie.cancel err [.undefined], ?_, hans, ?_, ?_⟩
  · rw [Command.reportFailure, queued_cookie, queued_getKeyList]
    rfl
  · show cookie.cancel err keys = _
    rw [hdirect]
    show _ = Cookie.responses (infos.take keys.length) _
    rw [List.take_of_length_le (Nat.le_of_eq (List.length_map _))]
  -- one key is all the copy has: more than one and the cookie waits for ever
  cases hmode : cookie.cbType with
  | single =>
    rw [copy_single err hkind hun' hmode hpos']
    exact ⟨fun h1 => ⟨h1, .inl rfl⟩, And.left⟩
  | spooled =>
    rw [copy_spooled err hkind hun' hmode hpos']
    refine and_congr_right fun _ => (or_iff_right ?_).symm
    exact fun hs => nomatch hs

end

/-! ## The report of a queued command -/

section Run

variable [Runtime] {s s' : Impl} {a : Action}

theorem mem_ofResult {id j : Nat} {call : LcbCall} {err e : Int} {cookie c : Cookie}
    {keys : List Value} (h : .cancelled id e c ∈ Event.ofResult j call err cookie keys) :
    id = j ∧ e = err ∧ err ≠ LCB_SUCCESS ∧ c = cookie.cancel err keys := by
  unfold Event.ofResult at h
  rcases List.mem_cons.mp h with h | h
  · cases h
  · split at h
    · cases h
    next herr =>
    cases List.mem_singleton.mp h
    exact ⟨rfl, rfl, herr, rfl⟩

omit [Runtime] in
theorem mem_of_cookieOf {id : Nat} {err : Int} {c : Cookie} (h : s.cookieOf id err = some c) :
    .cancelled id err c ∈ s.log := by
  obtain ⟨e, he, h⟩ := List.exists_of_findSome?_eq_some h
  cases e with
  | cancelled i e' c' =>
    simp only [Option.ite_none_right_eq_some] at h
    obtain ⟨⟨rfl, rfl⟩, hc⟩ := h
    cases hc
    exact he
  | connect | rejected | accepted | executed => cases h

/-- While request number `p₀.id` waits it is `p₀`, and when it is cancelled it is with `p₀`'s
    own report. -/
structure ReportsAs (p₀ : Pending) (s : Impl) : Prop where
  ledger : Ledger s
  known : p₀.id < s.nextId
  waits : ∀ p ∈ s.waiting, p.id = p₀.id → p = p₀
  told : ∀ e c, .cancelled p₀.id e c ∈ s.log →
    e ≠ LCB_SUCCESS ∧ p₀.cmd.reportFailure e = some c

/-- A step keeps it when it puts nothing else in the queue under that number, and what it
    cancels under that number has the report. -/
theorem ReportsAs.grow {p₀ : Pending} {evs : List Event} (hr : ReportsAs p₀ s) (hl : Ledger s')
    (hn : s.nextId ≤ s'.nextId)
    (hw : ∀ p ∈ s'.waiting, p.id = p₀.id → p ∈ s.waiting) (hlog : s'.log = s.log ++ evs)
    (hnew : ∀ e c, .cancelled p₀.id e c ∈ evs →
      e ≠ LCB_SUCCESS ∧ p₀.cmd.reportFailure e = some c) : ReportsAs p₀ s' := by
  refine ⟨hl, Nat.lt_of_lt_of_le hr.known hn, fun p hp hid => hr.waits p (hw p hp hid) hid, ?_⟩
  intro e c hm
  rw [hlog, List.mem_append] at hm
  rcases hm with hm | hm
  · exact hr.told e c hm
  · exact hnew e c hm

theorem effect_reports {p₀ : Pending} (hr : ReportsAs p₀ s) (hl : Ledger s')
    (he : Effect s a s') : ReportsAs p₀ s' := by
  have hknown := hr.known
  -- the head of the line, if it is `p₀`, is cancelled with its own keys
  have head {p : Pending} {ps : List Pending} {cookie : Cookie} (hw : s.waiting = p :: ps)
      (hck : p.cmd.cookie = some cookie) (hid : p₀.id = p.id) (e : Int) :
      p₀.cmd.reportFailure e = some (cookie.cancel e p.cmd.getKeyList) := by
    have hp := hr.waits p (hw ▸ List.mem_cons_self ..) hid.symm
    subst hp
    unfold Command.reportFailure
    rw [hck]
    rfl
  cases he with
  | silent hlog hevs hw hn =>
    refine hr.grow hl (Nat.le_of_eq hn.symm) (fun p hp _ => hw ▸ hp) hlog ?_
    intro e c hm
    cases hevs _ hm
  | joined hacc hc hlog hw hn =>
    refine hr.grow hl (by omega) ?_ hlog ?_
    · intro p hp hid
      rw [hw, List.mem_append, List.mem_singleton] at hp
      rcases hp with hp | rfl
      · exact hp
      · exact absurd hid (Nat.ne_of_gt hknown)
    · intro e c hm
      cases List.mem_singleton.mp hm
  | passed hacc hc hlog hw hn =>
    refine hr.grow hl (by omega) (fun p hp _ => hw ▸ hp) hlog ?_
    intro e c hm
    rcases List.mem_cons.mp hm with hm | hm
    · cases hm
    · exact absurd (mem_ofResult hm).1 (Nat.ne_of_lt hknown)
  | served hf hw hck hlog hn =>
    refine hr.grow hl (Nat.le_of_eq hn.symm) (fun p hp _ => hw ▸ List.mem_cons_of_mem _ hp) hlog ?_
    intro e c hm
    obtain ⟨hid, rfl, herr, rfl⟩ := mem_ofResult hm
    exact ⟨herr, head hw hck hid e⟩
  | dropped hg hf hw hck hlog hn =>
    refine hr.grow hl (Nat.le_of_eq hn.symm) (fun p hp _ => hw ▸ List.mem_cons_of_mem _ hp) hlog ?_
    intro e c hm
    obtain ⟨hid, rfl, rfl⟩ := Event.cancelled.inj (List.mem_singleton.mp hm)
    exact ⟨hg, head hw hck hid _⟩

variable {k : Kind} {args : List Value} {hd : Header k.Opts} {st : PState}

/-- **Whenever a queued request is cancelled, it is with the report of its copy.** -/
theorem run_reports {as as' : List Action} {s₁ : Impl} {err : Int} (hrun : Impl.run as = some s)
    (hc : s.connected = false) (hacc : Accepts s k args hd st)
    (hstep : Impl.step (.makeOperation k args err) s = some s₁)
    (hexec : Run.exec Impl.step s₁ as' = some s') :
    ReportsAs { id := s.nextId, kind := k, cmd := queued k hd st } s' := by
  have hl := run_ledger hrun
  have hl₁ := step_ledger hl hstep
  have hunborn := (run_histories hrun).unborn s.nextId (Nat.le_refl _)
  -- not connected, so what is accepted is queued; nothing can have been cancelled yet
  have hstart : ReportsAs { id := s.nextId, kind := k, cmd := queued k hd st } s₁ := by
    have hm := step_moves hstep
    generalize ha : Action.makeOperation k args err = a at hm
    cases hm with
    | reject hjs hacc' hr =>
      cases ha
      cases hacc.symm.trans hacc'
    | execute hjs hacc' hc' =>
      rw [hc] at hc'
      cases hc'
    | queue hjs hacc' hc' =>
      cases ha
      cases hacc.symm.trans hacc'
      refine ⟨hl₁, Nat.lt_succ_self _, ?_, ?_⟩
      · intro p hp hid
        have hpop := hl.stack.undecided hc
        unfold Impl.waiting at hp
        rw [if_neg (by rw [hpop]; simp)] at hp
        rw [List.mem_append, List.mem_singleton] at hp
        rcases hp with hp | rfl
        · exact absurd hid (Nat.ne_of_lt (hl.sound.ids p hp))
        · rfl
      · intro e c hm
        rw [List.mem_append, List.mem_singleton] at hm
        rcases hm with hm | hm
        · have : Event.cancelled s.nextId e c ∈ s.history s.nextId := by
            unfold Impl.history
            rw [List.mem_filter]
            exact ⟨hm, by simp [Event.request]⟩
          rw [hunborn] at this
          cases this
        · cases hm
    | _ => cases ha
  exact Run.exec_inv_all (I := ReportsAs _)
    (fun a s s' hr hst => effect_reports hr (step_ledger hr.ledger hst) (step_effect hr.ledger hst))
    hstart hexec

/-- **When a deferred failure is reported as it should be.** A key-value request is queued on a
    connection, and some time later its cookie is cancelled with `err`. Had the connection been
    up, the same failure would have been reported by `direct`, a full answer for the keys.
    The application hears the same and the cookie is released if and only if the request
    has one key and either calls back for each key or its key is named `undefined`. -/
theorem deferred_report_iff {as as' : List Action} {s₁ : Impl} {err₀ err : Int}
    {deferred : Cookie} (hrun : Impl.run as = some s) (hc : s.connected = false)
    (hacc : Accepts s k args hd st) (hk : k.cls.cookieKind = .plain)
    (hstep : Impl.step (.makeOperation k args err₀) s = some s₁)
    (hexec : Run.exec Impl.step s₁ as' = some s')
    (hcancel : .cancelled s.nextId err deferred ∈ s'.log) :
    let cookie := (ofState hd st).createCookie k.cls
    let keys := (ofState hd st).getKeyList
    let infos := keys.map (ResponseInfo.ofKey err)
    let cancelled (m : Nat) := Cookie.responses (infos.take m) { cookie with isCancelled := true }
    ∃ t direct, Impl.step (.makeOperation k args err) { s with connected := true } = some t ∧
      .cancelled s.nextId err direct ∈ t.log ∧ direct = cancelled keys.length ∧
      Answered cookie infos cancelled ∧
      ((deferred.calls = direct.calls ∧ deferred.deletes = 1) ↔
        keys.length = 1 ∧ (cookie.cbType = .single ∨ ∀ key ∈ keys, key.toName = "undefined")) := by
  intro cookie keys infos cancelled
  obtain ⟨herr, hreport⟩ := (run_reports hrun hc hacc hstep hexec).told err deferred hcancel
  obtain ⟨deferred', hdeferred, hans, hdirect, hiff⟩ := copy_report_iff hacc hk err
  cases hreport.symm.trans hdeferred
  have hjs : s.jsRuns = true := by
    unfold Impl.step at hstep
    by_contra hn
    simp [hn] at hstep
  obtain ⟨t, ht, hm⟩ := submit_moves (s := { s with connected := true }) err hjs hacc
  refine ⟨t, cookie.cancel err keys, ?_, ?_, hdirect, hans, hiff⟩
  · show (if s.jsRuns = true then Impl.makeOperation k args err { s with connected := true }
      else none) = some t
    rw [if_pos hjs]
    unfold Impl.makeOperation
    rw [show accept k.cls args (Command.start s.heap) = .done hd st from hacc]
    exact ht
  · generalize ha : Action.makeOperation k args err = a at hm
    cases hm with
    | reject hjs hacc' hr =>
      cases ha
      cases hacc.symm.trans hacc'
    | queue hjs hacc' hc' => cases hc'
    | execute hjs hacc' hc' hcall =>
      cases ha
      cases hacc.symm.trans hacc'
      exact List.mem_append_right _ (List.mem_cons_of_mem _ (cancelled_ofResult herr))
    | _ => cases ha

end Run

end Proof

section Example

open scoped SmallRuntime

/-- A get of one key. -/
def oneKeyGet : List Value := [.string "a", .undefined, .function 1]

/-- A get of two keys. -/
def twoKeyGet : List Value := [.array [.string "a", .string "b"], .undefined, .function 1]

/-- The connection comes up, and the command at the head of the queue fails. -/
def connectAndFail : List Action := [.onConfig true, .ret, .drain 1]

/-- The deferred failure of a get of one key is reported as it should be. -/
theorem Proof.deferred_report_iff_one : ∃ s t deferred direct,
    Impl.run (.makeOperation .get oneKeyGet 0 :: connectAndFail) = some s ∧
      .cancelled 0 1 deferred ∈ s.log ∧
      Impl.step (.makeOperation .get oneKeyGet 1) { connected := true } = some t ∧
      .cancelled 0 1 direct ∈ t.log ∧
      deferred.calls = direct.calls ∧ deferred.deletes = 1 := by
  obtain ⟨hd, st, hacc, htest⟩ := Outcome.exists_of_check
    (Command.accept Kind.get.cls oneKeyGet (Command.start []))
    (fun hd st => (Command.ofState hd st).getKeyList.length = 1 &&
      ((Command.ofState hd st).createCookie Kind.get.cls).cbType = .single) (by decide +kernel)
  obtain ⟨hlen, hmode⟩ : (Command.ofState hd st).getKeyList.length = 1 ∧
      ((Command.ofState hd st).createCookie Kind.get.cls).cbType = .single := by
    simpa using htest
  obtain ⟨s, hs, hcookie⟩ := (Option.any_eq_true _ _).mp
    (show (Impl.run (.makeOperation .get oneKeyGet 0 :: connectAndFail)).any
      (fun s => (s.cookieOf 0 1).isSome) = true by decide +kernel)
  obtain ⟨deferred, hdeferred⟩ := Option.isSome_iff_exists.mp hcookie
  have hcancel := Proof.mem_of_cookieOf hdeferred
  obtain ⟨s₁, hstep, hexec⟩ := Run.exec_cons.mp hs
  obtain ⟨t, direct, ht, hdirect, _, _, hiff⟩ :=
    Proof.deferred_report_iff (show Impl.run [] = some {} from rfl) rfl hacc rfl hstep hexec hcancel
  obtain ⟨hcalls, hone⟩ := hiff.mpr ⟨hlen, .inl hmode⟩
  exact ⟨s, t, deferred, direct, hs, hcancel, ht, hdirect, hcalls, hone⟩

/-- A get of two keys that fails is reported twice when it is executed at once, and once when it
    was queued; and then its cookie is never released. -/
theorem Proof.deferred_report_two : ∃ s t deferred direct,
    Impl.run (.makeOperation .get twoKeyGet 0 :: connectAndFail) = some s ∧
      .cancelled 0 1 deferred ∈ s.log ∧
      Impl.step (.makeOperation .get twoKeyGet 1) { connected := true } = some t ∧
      .cancelled 0 1 direct ∈ t.log ∧
      direct.calls.length = 2 ∧ direct.deletes = 1 ∧
      deferred.calls.length = 1 ∧ deferred.deletes = 0 := by
  obtain ⟨s, hs, htest⟩ := (Option.any_eq_true _ _).mp
    (show (Impl.run (.makeOperation .get twoKeyGet 0 :: connectAndFail)).any
      (fun s => (s.cookieOf 0 1).any fun c => c.calls.length = 1 && c.deletes = 0) = true by
        decide +kernel)
  obtain ⟨t, ht, htest'⟩ := (Option.any_eq_true _ _).mp
    (show (Impl.step (.makeOperation .get twoKeyGet 1) { connected := true }).any
      (fun s => (s.cookieOf 0 1).any fun c => c.calls.length = 2 && c.deletes = 1) = true by
        decide +kernel)
  obtain ⟨deferred, hdeferred, hd⟩ := (Option.any_eq_true _ _).mp htest
  obtain ⟨direct, hdirect, hd'⟩ := (Option.any_eq_true _ _).mp htest'
  obtain ⟨hcalls, hdel⟩ : deferred.calls.length = 1 ∧ deferred.deletes = 0 := by simpa using hd
  obtain ⟨hcalls', hdel'⟩ : direct.calls.length = 2 ∧ direct.deletes = 1 := by simpa using hd'
  exact ⟨s, t, deferred, direct, hs, Proof.mem_of_cookieOf hdeferred, ht,
    Proof.mem_of_cookieOf hdirect, hcalls', hdel', hcalls, hdel⟩

end Example

end Couchnode
