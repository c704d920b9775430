import Couchnode.Lib.Pool
import Couchnode.Proof.Flights

/-!
# Where every request is

However requests, connection events, the draining of the queue and the answers of libcouchbase
are interleaved, every accepted request is in exactly one place: it waits in the queue, or its call
is in flight, or its call has had its last answer, or it was cancelled (`run_places`). No
cookie is used after it was deleted, and none is deleted twice (`run_cookies`). And what has
landed has been reported, to the callback the request came with (`run_reported`).

The connection itself is followed by `Traced`, from the transitions of `Moves`; `Orderly` adds
the calls, from the life of one call.
-/

set_option autoImplicit false

namespace Couchnode

namespace Event

/-- The request an event hands to libcouchbase, which takes it. -/
def taken : Event → Option Nat
  | executed id _ err => if err = LCB_SUCCESS then some id else none
  | _ => none

/-- The request an event gives up. -/
def dropped : Event → Option Nat
  | cancelled id _ _ => some id
  | _ => none

end Event

namespace Impl

def taken (s : Impl) : List Nat := s.log.filterMap Event.taken

def cancelled (s : Impl) : List Nat := s.log.filterMap Event.dropped

end Impl

/-- The calls of the system, as components that hear their own answers only. -/
def Traffic.calls (t : Traffic) : Pool Flight := { live := t.flights, done := t.landed }

/-- The actions of a schedule of answers. -/
def answering (es : List (Nat × Answer)) : List TrafficAction :=
  es.map fun e => .answer e.1 e.2

namespace Flight

variable [Runtime]

/-- What an answer does to its call, and whether it is the last. -/
def move (a : Answer) (f : Flight) : Option (Flight × Bool) :=
  (f.answer a).map fun g => (g, a.isLast f.owed)

/-- Answers that end a call: one to each key it owes, or the one that is the end. -/
def lastAnswers (f : Flight) : List Answer :=
  match f.kind.cls.cookieKind with
  | .plain => f.owed.map fun key => .keyed { err := LCB_SUCCESS, key := key, resp := .unlock }
  | .observe => [.observed (LCB_SUCCESS, {})]
  | .stats => [.stat (LCB_SUCCESS, none)]
  | .http => [.http LCB_SUCCESS { status := 200 }]

end Flight

namespace Proof

open Command Impl

variable [Runtime]

/-! ## The requests of the connection -/

omit [Runtime] in
/-- Every request waits, was taken, or was given up, and only one of these. -/
def Places (s : Impl) : Prop :=
  (s.waiting.map (·.id) ++ s.taken ++ s.cancelled).Perm (List.range s.nextId)

section Places

variable {s s' : Impl} {a : Action} {evs : List Event} {id : Nat} {call : LcbCall} {err : Int}
  {cookie : Cookie} {keys : List Value} {n : List Nat}

/-- A command handed to libcouchbase is taken or given up. -/
theorem places_ofResult :
    (Event.ofResult id call err cookie keys).filterMap Event.taken ++
      (Event.ofResult id call err cookie keys).filterMap Event.dropped = [id] := by
  unfold Event.ofResult
  by_cases h : err = LCB_SUCCESS
  · simp [h, List.filterMap_cons, Event.taken, Event.dropped]
  · simp [h, List.filterMap_cons, Event.taken, Event.dropped]

omit [Runtime] in
/-- What joins the places is what was accepted. -/
theorem Places.grow (h : Places s) (hlog : s'.log = s.log ++ evs)
    (hn : List.range s'.nextId = List.range s.nextId ++ n)
    (hmoved : (s'.waiting.map (·.id) ++
      (evs.filterMap Event.taken ++ evs.filterMap Event.dropped)).Perm
        (s.waiting.map (·.id) ++ n)) : Places s' := by
  unfold Places Impl.taken Impl.cancelled at h ⊢
  rw [hlog, hn, List.filterMap_append, List.filterMap_append]
  rw [List.perm_iff_count] at h hmoved ⊢
  intro i
  have hi := h i
  have hmi := hmoved i
  simp only [List.count_append] at hi hmi ⊢
  omega

theorem effect_places (h : Places s) (he : Effect s a s') : Places s' := by
  cases he with
  | @silent _ _ evs' hlog hevs hw hn =>
    have htaken : ∀ e ∈ evs', e.taken = none := by
      intro e hm
      have hr := hevs e hm
      cases e <;> first | rfl | cases hr
    have hdropped : ∀ e ∈ evs', e.dropped = none := by
      intro e hm
      have hr := hevs e hm
      cases e <;> first | rfl | cases hr
    refine h.grow (n := []) hlog (by rw [hn, List.append_nil]) ?_
    rw [List.filterMap_eq_nil_iff.mpr htaken, List.filterMap_eq_nil_iff.mpr hdropped, hw]
    exact .refl _
  | joined hacc hc hlog hw hn =>
    refine h.grow (n := [s.nextId]) hlog (by rw [hn, List.range_succ]) ?_
    rw [hw, List.map_append]
    exact .of_eq (List.append_nil _)
  | passed hacc hc hlog hw hn =>
    refine h.grow (n := [s.nextId]) hlog (by rw [hn, List.range_succ]) ?_
    rw [hw, List.filterMap_cons_none (by rfl), List.filterMap_cons_none (by rfl), places_ofResult]
  | served hf hw hck hlog hn =>
    refine h.grow (n := []) hlog (by rw [hn, List.append_nil]) ?_
    rw [places_ofResult, hw, List.append_nil, List.map_cons]
    exact List.perm_append_singleton _ _
  | dropped hg hf hw hck hlog hn =>
    refine h.grow (n := []) hlog (by rw [hn, List.append_nil]) ?_
    rw [hw, List.append_nil, List.map_cons]
    exact List.perm_append_singleton _ _

end Places

/-! ## What the connection hands over -/

/-- A command that waits: it can be read, its cookie fits it, and it is the copy of one of the
    requests, with no keys to name when it fails. -/
structure Tracked (requests : List (Kind × List Value)) (h : Heap) (p : Pending)
    (reqs : List LcbReq) (c : Cookie) : Prop where
  http : p.kind.cls.cookieKind = .http → reqs.length = 1
  ready : Ready 0 h p.cmd reqs
  cookie : p.cmd.cookie = some c
  given : Given p.kind p.cmd.apiArgs c reqs
  keys : p.cmd.getKeyList.length = 1
  request : requests[p.id]? = some (p.kind, p.cmd.apiArgs)

/-- What is known of the requests of a connection, `requests` being those it accepted. -/
structure Traced (s : Impl) (requests : List (Kind × List Value)) : Prop where
  numbered : requests.length = s.nextId
  queued : ∀ p ∈ s.pendingCommands, ∃ reqs c, Tracked requests s.heap p reqs c
  cancelled : ∀ id err c, .cancelled id err c ∈ s.log →
    ∃ k args, requests[id]? = some (k, args) ∧ Cancelled (lastArg args) c

section Trace

variable {s s' : Impl} {a : Action} {requests : List (Kind × List Value)}

theorem accept_apiArgs {k : Kind} {args : List Value} {h : Heap} {hd : Header k.Opts}
    {st : PState} (hacc : accept k.cls args (Command.start h) = .done hd st) :
    hd.apiArgs = args := by
  obtain ⟨hd', s₁, hi, hacc⟩ := Prog.bind_eq_done.mp hacc
  obtain ⟨_, s₂, _, hacc⟩ := Prog.bind_eq_done.mp hacc
  cases hacc
  exact (initialize_done hi).2.1

omit [Runtime] in
/-- Requests that were accepted stay where they are. -/
theorem getElem?_more {id : Nat} {r : Kind × List Value} (more : List (Kind × List Value))
    (h : requests[id]? = some r) : (requests ++ more)[id]? = some r := by
  obtain ⟨hlt, _⟩ := List.getElem?_eq_some_iff.mp h
  rw [List.getElem?_append_left hlt]
  exact h

/-- A command that stays in the queue is tracked as before. -/
theorem Tracked.keep {p : Pending} {reqs : List LcbReq} {c : Cookie}
    (htr : Tracked requests s.heap p reqs c) (hs : Sound s) (hm : Moves s a s')
    (hp : p ∈ s.pendingCommands) (hp' : p ∈ s'.pendingCommands) (more : List (Kind × List Value)) :
    Tracked (requests ++ more) s'.heap p reqs c where
  http := htr.http
  ready := htr.ready.frame (moves_frame hs hm hp hp')
  cookie := htr.cookie
  given := htr.given
  keys := htr.keys
  request := getElem?_more more htr.request

/-- Nothing is known less of a connection that goes on. -/
theorem Traced.keep (ht : Traced s requests) (hs : Sound s) (hm : Moves s a s')
    {m : List (Kind × List Value)} (hn : (requests ++ m).length = s'.nextId)
    {evs : List Event} (hlog : s'.log = s.log ++ evs)
    (hin : ∀ p ∈ s'.pendingCommands, p ∈ s.pendingCommands)
    (hevs : ∀ id err c, .cancelled id err c ∈ evs →
      ∃ k args, (requests ++ m)[id]? = some (k, args) ∧ Cancelled (lastArg args) c) :
    Traced s' (requests ++ m) := by
  refine ⟨hn, ?_, ?_⟩
  · intro p hp
    obtain ⟨reqs, c, htr⟩ := ht.queued p (hin p hp)
    exact ⟨reqs, c, htr.keep hs hm (hin p hp) hp m⟩
  · intro id err c hmem
    rw [hlog, List.mem_append] at hmem
    rcases hmem with hmem | hmem
    · obtain ⟨k, args, hreq, hc⟩ := ht.cancelled id err c hmem
      exact ⟨k, args, getElem?_more m hreq, hc⟩
    · exact hevs id err c hmem

/-- A step that accepts nothing and cancels nothing. -/
theorem Traced.quiet (ht : Traced s requests) (hs : Sound s) (hm : Moves s a s')
    (hn : s'.nextId = s.nextId) {e : List Event} (hlog : s'.log = s.log ++ e)
    (hin : ∀ p ∈ s'.pendingCommands, p ∈ s.pendingCommands)
    (hevs : ∀ id err c, .cancelled id err c ∉ e) : Traced s' requests := by
  have hkeep := ht.keep hs hm (m := []) (by rw [List.append_nil, hn, ht.numbered]) hlog hin
    fun id err c hmem => absurd hmem (hevs id err c)
  rwa [List.append_nil] at hkeep

/-- The only cancellation a result can bring. -/
theorem cancelled_of_result {id i : Nat} {call : LcbCall} {err e : Int} {cookie c : Cookie}
    {keys : List Value} (h : .cancelled i e c ∈ Event.ofResult id call err cookie keys) :
    i = id ∧ c = cookie.cancel err keys := by
  unfold Event.ofResult at h
  rcases List.mem_cons.mp h with h | h
  · cases h
  · split at h
    · cases h
    · cases List.mem_singleton.mp h
      exact ⟨rfl, rfl⟩

/-- The copy in the queue knows no keys, so its cancellation is for one. -/
theorem Given.few {k : Kind} {args keys : List Value} {c : Cookie} {reqs : List LcbReq}
    (hg : Given k args c reqs) (hkeys : keys.length = 1) :
    CountsKeys k.cls.cookieKind → keys.length ≤ reqs.length := by
  intro hk
  rw [hkeys]
  exact (hg.counts hk).2

/-- **Every step of the connection keeps track of its requests.** -/
theorem moves_traced (ht : Traced s requests) (hs : Sound s) (hm : Moves s a s') :
    Traced s' (requests ++ Traffic.accepted a s s') := by
  -- the steps that accept nothing
  have unaccepted (h : Traffic.accepted a s s' = []) (ht' : Traced s' requests) :
      Traced s' (requests ++ Traffic.accepted a s s') := by
    rwa [h, List.append_nil]
  have hm' := hm
  cases hm with
  | reject hjs hacc hr =>
    refine unaccepted (if_neg (Nat.lt_irrefl _)) (ht.quiet hs hm' rfl rfl (fun _ => id) ?_)
    intro id err c hmem
    cases List.mem_singleton.mp hmem
  | @queue k args err hd st hjs hacc hc =>
    obtain ⟨reqs, hhttp, _, hq, hg⟩ := accept_given hacc
    have hnew : Traffic.accepted (.makeOperation k args err) s
        { s with
          heap := st.heap.alloc .object, nextId := s.nextId + 1
          log := s.log ++ [.accepted s.nextId s.isShutdown]
          pendingCommands :=
            s.pendingCommands ++ [{ id := s.nextId, kind := k, cmd := queued k hd st }] } =
        [(k, args)] := if_pos (Nat.lt_succ_self _)
    rw [hnew]
    refine ⟨?_, ?_, ?_⟩
    · rw [List.length_append, ht.numbered]
      rfl
    · intro p hp
      rcases List.mem_append.mp hp with hp' | hp'
      · obtain ⟨reqs', c, htr⟩ := ht.queued p hp'
        exact ⟨reqs', c, htr.keep hs hm' hp' hp _⟩
      · rw [List.mem_singleton.mp hp']
        have hargs : (queued k hd st).apiArgs = args :=
          (show (queued k hd st).apiArgs = hd.apiArgs from rfl).trans (accept_apiArgs hacc)
        refine ⟨reqs, _, hhttp, hq.weaken (Nat.zero_le _), queued_cookie, ?_, ?_, ?_⟩
        · rw [hargs]
          exact hg
        · rw [queued_getKeyList]
          rfl
        · show (requests ++ [(k, args)])[s.nextId]? = some (k, (queued k hd st).apiArgs)
          rw [hargs, ← ht.numbered, List.getElem?_concat_length]
    · intro id err c hmem
      rcases List.mem_append.mp hmem with hmem | hmem
      · obtain ⟨k', args', hreq, hc'⟩ := ht.cancelled id err c hmem
        exact ⟨k', args', getElem?_more _ hreq, hc'⟩
      · cases List.mem_singleton.mp hmem
  | @execute k args err hd st call hjs hacc hc hcall =>
    obtain ⟨reqs, _, hr, _, hg⟩ := accept_given hacc
    have hlt : s.nextId < s.nextId + 1 := Nat.lt_succ_self _
    refine ht.keep hs hm' ?_ rfl (fun _ => id) ?_
    · simp only [Traffic.accepted, if_pos hlt, List.length_append, List.length_singleton,
        ht.numbered]
    · intro id e c hmem
      rcases List.mem_cons.mp hmem with hmem | hmem
      · cases hmem
      obtain ⟨rfl, rfl⟩ := cancelled_of_result hmem
      refine ⟨k, args, ?_, cancel_safe hg err ?_⟩
      · simp only [Traffic.accepted, if_pos hlt]
        rw [← ht.numbered, List.getElem?_concat_length]
      · intro hk
        obtain ⟨_, hkeys, _⟩ := counted_keys hacc hk
        have hn : (ofState hd st).commands.ncmds = reqs.length := hr.ncmds
        rw [hn] at hkeys
        exact Nat.le_of_eq hkeys
  | scheduled hc hp hg hcall =>
    refine unaccepted rfl (ht.quiet hs hm' rfl rfl ?_ ?_)
    · intro p hmem
      rw [hp]
      exact List.mem_cons_of_mem _ hmem
    · intro id err c hmem
      cases List.mem_singleton.mp hmem
  | @scheduleFailed err g rest p ps call cookie hc hp hg he hcall hck =>
    obtain ⟨reqs, c₀, htr⟩ := ht.queued p (by rw [hp]; exact List.mem_cons_self)
    have hkeep := ht.keep hs hm' (m := []) (by rw [List.append_nil]; exact ht.numbered) rfl
      (fun _ => id) ?_
    · exact hkeep
    · intro id e c hmem
      obtain ⟨rfl, rfl⟩ := cancelled_of_result hmem
      cases hck.symm.trans htr.cookie
      rw [List.append_nil]
      exact ⟨_, _, htr.request, cancel_safe htr.given err (htr.given.few htr.keys)⟩
  | @globalError err g rest p ps cookie hc hp hg hck =>
    obtain ⟨reqs, c₀, htr⟩ := ht.queued p (by rw [hp]; exact List.mem_cons_self)
    have hkeep := ht.keep hs hm' (m := []) (by rw [List.append_nil]; exact ht.numbered) rfl
      (fun _ => id) ?_
    · exact hkeep
    · intro id e c hmem
      cases List.mem_singleton.mp hmem
      cases hck.symm.trans htr.cookie
      rw [List.append_nil]
      exact ⟨_, _, htr.request, cancel_safe htr.given g (htr.given.few htr.keys)⟩
  | @popFront err g rest hc =>
    refine unaccepted rfl (ht.quiet (e := []) hs hm' popCommand_nextId ?_ ?_ ?_)
    · exact popCommand_log.trans (List.append_nil _).symm
    · intro p hmem
      have hmem' : p ∈ (Impl.popCommand s).pendingCommands := hmem
      rw [popCommand_pendingCommands] at hmem'
      exact List.mem_of_mem_tail hmem'
    · intro id err c hmem
      cases hmem
  | shutdown | shutdownAgain | configIgnored | error | idleFired | drained | ret =>
    refine unaccepted rfl (ht.quiet (e := []) hs hm' rfl (List.append_nil _).symm (fun _ => id) ?_)
    intro id err c hmem
    cases hmem
  | configured | failed =>
    refine unaccepted rfl (ht.quiet hs hm' rfl rfl (fun _ => id) ?_)
    intro id err c hmem
    cases List.mem_singleton.mp hmem

/-! ## What libcouchbase takes -/

/-- The call a step hands over: it is underway, and one of the requests. -/
def Launches (requests : List (Kind × List Value)) (f : Flight) : Prop :=
  (∃ c₀, Underway c₀ f) ∧ requests[f.id]? = some (f.kind, f.args)

omit [Runtime] in
theorem taken_append {e : List Event} (hlog : s'.log = s.log ++ e) :
    s'.taken = s.taken ++ e.filterMap Event.taken := by
  unfold Impl.taken
  rw [hlog, List.filterMap_append]

theorem taken_ofResult {id : Nat} {call : LcbCall} {err : Int} {cookie : Cookie}
    {keys : List Value} :
    (Event.ofResult id call err cookie keys).filterMap Event.taken =
      if err = LCB_SUCCESS then [id] else [] := by
  unfold Event.ofResult
  by_cases h : err = LCB_SUCCESS
  · simp [h, Event.taken]
  · simp [h, List.filterMap_cons, Event.taken]

/-- **A step hands over what it logs as taken**, and that is a request with its own cookie. -/
theorem moves_handover (ht : Traced s requests) (hm : Moves s a s') :
    s'.taken = s.taken ++ (s.handover a).toList.map (·.id) ∧
      ∀ f, s.handover a = some f → Launches (requests ++ Traffic.accepted a s s') f := by
  have nothing {e : List Event} (hnone : s.handover a = none) (hlog : s'.log = s.log ++ e)
      (hevs : e.filterMap Event.taken = []) :
      s'.taken = s.taken ++ (s.handover a).toList.map (·.id) ∧
        ∀ f, s.handover a = some f → Launches (requests ++ Traffic.accepted a s s') f := by
    rw [taken_append hlog, hevs, hnone]
    exact ⟨rfl, fun _ h => nomatch h⟩
  cases hm with
  | reject hjs hacc hr =>
    refine nothing ?_ rfl rfl
    unfold Impl.handover
    simp only [hacc]
  | queue hjs hacc hc =>
    refine nothing ?_ rfl rfl
    unfold Impl.handover
    simp only [show accept _ _ _ = _ from hacc, hc, Bool.false_and, Bool.false_eq_true, if_false]
  | @execute k args err hd st call hjs hacc hc hcall =>
    obtain ⟨reqs, hhttp, hr, _, hg⟩ := accept_given hacc
    have hreqs : call.cmds = reqs := by
      rw [execute_ready hr hhttp] at hcall
      cases hcall
      rfl
    have hargs : (withCookie k hd st).apiArgs = args := accept_apiArgs hacc
    have hlt : s.nextId < s.nextId + 1 := Nat.lt_succ_self _
    have hhand : s.handover (.makeOperation k args err) =
        if err = LCB_SUCCESS then
          some (.ofCommand s.nextId (withCookie k hd st) call ((ofState hd st).createCookie k.cls))
        else none := by
      unfold Impl.handover
      simp only [show accept _ _ _ = _ from hacc, hc, Bool.true_and, decide_eq_true_eq]
      split
      · show ((withCookie k hd st).execute k.cls st.heap).map _ = _
        rw [hcall]
        rfl
      · rfl
    rw [hhand, taken_append (e := .accepted s.nextId s.isShutdown :: _) rfl,
      List.filterMap_cons_none (by rfl), taken_ofResult]
    by_cases he : err = LCB_SUCCESS
    · simp only [if_pos he]
      refine ⟨rfl, ?_⟩
      intro f hf
      cases hf
      refine ⟨⟨_, Given.takeoff ?_ rfl rfl rfl⟩, ?_⟩
      · show Given k (withCookie k hd st).apiArgs _ call.cmds
        rw [hargs, hreqs]
        exact hg
      · simp only [Traffic.accepted, if_pos hlt]
        show (requests ++ [(k, args)])[s.nextId]? = some (k, (withCookie k hd st).apiArgs)
        rw [hargs, ← ht.numbered, List.getElem?_concat_length]
    · simp only [if_neg he]
      exact ⟨rfl, fun _ h => nomatch h⟩
  | @scheduled g rest p ps call hc hp hg hcall =>
    obtain ⟨reqs, c₀, htr⟩ := ht.queued p (by rw [hp]; exact List.mem_cons_self)
    have hreqs : call.cmds = reqs := by
      rw [execute_ready htr.ready htr.http] at hcall
      cases hcall
      rfl
    have hhand : s.handover (.drain LCB_SUCCESS) = some (.ofCommand p.id p.cmd call c₀) := by
      unfold Impl.handover
      simp only [hc, hp, hg, hcall, htr.cookie]
      rfl
    rw [hhand, taken_append (e := [.executed p.id call LCB_SUCCESS]) rfl]
    refine ⟨rfl, ?_⟩
    intro f hf
    cases hf
    refine ⟨⟨_, Given.takeoff ?_ rfl rfl rfl⟩, getElem?_more _ htr.request⟩
    show Given p.kind p.cmd.apiArgs c₀ call.cmds
    rw [hreqs]
    exact htr.given
  | @scheduleFailed err g rest p ps call cookie hc hp hg he hcall hck =>
    refine nothing ?_ rfl ?_
    · unfold Impl.handover
      simp only [hc, hp, he, decide_false, Bool.and_false, Bool.false_eq_true, if_false]
    · rw [taken_ofResult, if_neg he]
  | @globalError err g rest p ps cookie hc hp hg hck =>
    refine nothing ?_ rfl rfl
    unfold Impl.handover
    simp only [hc, hp, hg, decide_false, Bool.false_and, Bool.false_eq_true, if_false]
  | @popFront err g rest hc =>
    refine nothing (e := []) ?_ (popCommand_log.trans (List.append_nil _).symm) rfl
    unfold Impl.handover
    simp only [hc]
  | @drained err g rest hc hp =>
    refine nothing (e := []) ?_ (List.append_nil _).symm rfl
    unfold Impl.handover
    simp only [hc, hp]
  | shutdown | shutdownAgain | configIgnored | error | idleFired | ret =>
    exact nothing (e := []) rfl (List.append_nil _).symm rfl
  | configured | failed => exact nothing rfl rfl rfl

end Trace

/-! ## The whole system -/

/-- What holds of the connection and the calls in every reachable state. -/
structure Orderly (t : Traffic) : Prop where
  ledger : Ledger t.impl
  places : Places t.impl
  traced : Traced t.impl t.requests
  taken : (t.flights.map (·.id) ++ t.landed.map (·.id)).Perm t.impl.taken
  flights : ∀ f ∈ t.flights, Launches t.requests f
  landed : ∀ f ∈ t.landed, (∃ c₀, Over c₀ f) ∧ t.requests[f.id]? = some (f.kind, f.args)

section System

variable {t t' : Traffic} {a : Action} {f g : Flight} {ans : Answer} {s : Impl}

theorem orderly_start : Orderly {} where
  ledger := ledger_start
  places := .refl _
  traced := by
    refine ⟨rfl, ?_, ?_⟩
    · intro p hp
      cases hp
    · intro id err c hmem
      cases hmem
  taken := .refl _
  flights f hf := nomatch hf
  landed f hf := nomatch hf

/-- A step of the connection. -/
theorem Orderly.impl (h : Orderly t) (hstep : Impl.step a t.impl = some s) :
    Orderly { t with
      impl := s
      flights := t.flights ++ (t.impl.handover a).toList
      requests := t.requests ++ Traffic.accepted a t.impl s } := by
  have hm := step_moves hstep
  obtain ⟨htaken, hflight⟩ := moves_handover h.traced hm
  refine ⟨step_ledger h.ledger hstep, effect_places h.places (step_effect h.ledger hstep),
    moves_traced h.traced h.ledger.sound hm, ?_, ?_, ?_⟩
  · show (((t.flights ++ _).map _) ++ _).Perm s.taken
    rw [htaken, List.map_append, List.append_assoc]
    refine (List.perm_append_comm.append_left _).trans ?_
    rw [← List.append_assoc]
    exact h.taken.append_right _
  · intro f hf
    rcases List.mem_append.mp hf with hf | hf
    · obtain ⟨hu, hreq⟩ := h.flights f hf
      exact ⟨hu, getElem?_more _ hreq⟩
    · exact hflight f (Option.mem_toList.mp hf)
  · intro f hf
    obtain ⟨ho, hreq⟩ := h.landed f hf
    exact ⟨ho, getElem?_more _ hreq⟩

omit [Runtime] in
/-- No two calls have one number. -/
theorem nodup_of_places (hp : Places t.impl)
    (ht : (t.flights.map (·.id) ++ t.landed.map (·.id)).Perm t.impl.taken) :
    (t.flights.map (·.id)).Nodup := by
  have hall : t.impl.taken.Nodup := by
    have hnd := hp.nodup_iff.mpr List.nodup_range
    exact hnd.of_append_left.of_append_right
  exact (ht.nodup_iff.mpr hall).of_append_left

/-- An answer. -/
theorem Orderly.answer (h : Orderly t) (hf : f ∈ t.flights) (hg : f.answer ans = some g) :
    Orderly (t.settle ans f g) := by
  obtain ⟨hid, hkind, hargs, _⟩ := answer_fields hg
  obtain ⟨⟨c₀, hu⟩, hreq⟩ := h.flights f hf
  have hreq' : t.requests[g.id]? = some (g.kind, g.args) := by
    rw [hid, hkind, hargs]
    exact hreq
  unfold Traffic.settle
  by_cases hl : ans.isLast f.owed = true
  · rw [if_pos hl]
    refine ⟨h.ledger, h.places, h.traced, ?_, ?_, ?_⟩
    · -- the call moves from one list to the other
      have hnd := nodup_of_places h.places h.taken
      have hfilter : (t.flights.filter fun f' => f'.id ≠ f.id).map (·.id) =
          (t.flights.map (·.id)).erase f.id := by
        rw [hnd.erase_eq_filter, List.filter_map]
        congr 1
        refine List.filter_congr fun f' _ => ?_
        simp [bne, beq_eq_decide]
      have hmem : f.id ∈ t.flights.map (·.id) := List.mem_map_of_mem hf
      show ((t.flights.filter _).map _ ++ (t.landed ++ [g]).map _).Perm t.impl.taken
      rw [hfilter, List.map_append, List.map_singleton, hid]
      have hback := (List.perm_cons_erase hmem).symm.append_right (t.landed.map (·.id))
      refine List.Perm.trans ?_ (hback.trans h.taken)
      rw [← List.append_assoc]
      exact List.perm_append_singleton _ _
    · intro f' hf'
      exact h.flights f' (List.mem_of_mem_filter hf')
    · intro f' hf'
      rcases List.mem_append.mp hf' with hf' | hf'
      · exact h.landed f' hf'
      · rw [List.mem_singleton.mp hf']
        exact ⟨⟨c₀, answer_over hu hg hl⟩, hreq'⟩
  · rw [if_neg hl]
    refine ⟨h.ledger, h.places, h.traced, ?_, ?_, h.landed⟩
    · have hsame : (t.flights.map fun f' => if f'.id = f.id then g else f').map (·.id) =
          t.flights.map (·.id) := by
        rw [List.map_map]
        refine List.map_congr_left fun f' _ => ?_
        show (if f'.id = f.id then g else f').id = f'.id
        split
        · next he => rw [hid, he]
        · rfl
      show ((t.flights.map _).map _ ++ _).Perm t.impl.taken
      rw [hsame]
      exact h.taken
    · intro f' hf'
      obtain ⟨f₁, hf₁, rfl⟩ := List.mem_map.mp hf'
      split
      · exact ⟨⟨c₀, answer_underway hu hg (Bool.eq_false_iff.mpr hl)⟩, hreq'⟩
      · exact h.flights f₁ hf₁

theorem step_orderly {act : TrafficAction} (h : Orderly t) (hstep : Traffic.step act t = some t') :
    Orderly t' := by
  unfold Traffic.step at hstep
  cases act with
  | impl a =>
    obtain ⟨s, hs, hstep⟩ := Option.bind_eq_some_iff.mp hstep
    cases hstep
    exact h.impl hs
  | answer id ans =>
    simp only at hstep
    split at hstep
    · obtain ⟨f, hf, hstep⟩ := Option.bind_eq_some_iff.mp hstep
      obtain ⟨g, hg, hstep⟩ := Option.bind_eq_some_iff.mp hstep
      cases hstep
      exact h.answer (List.mem_of_find?_eq_some hf) hg
    · cases hstep

theorem run_orderly {as : List TrafficAction} (h : Traffic.run as = some t) : Orderly t :=
  Run.exec_inv_all (fun _ _ _ ho hstep => step_orderly ho hstep) orderly_start h

end System

/-! ## What every run keeps -/

section Runs

variable {as : List TrafficAction} {t : Traffic}

/-- **No request is lost, and none is in two places.** In every reachable state of the connection
    and libcouchbase, every accepted request waits in the queue, or its call has answers to come,
    or it has had its last answer, or it was cancelled; exactly one of these, and once. -/
theorem requests_placed (h : Traffic.run as = some t) :
    (t.impl.waiting.map (·.id) ++ (t.flights.map (·.id) ++ t.landed.map (·.id)) ++
      t.impl.cancelled).Perm (List.range t.requests.length) := by
  have ho := run_orderly h
  rw [ho.traced.numbered]
  exact ((ho.taken.append_left _).append_right _).trans ho.places

/-- **No cookie is used after it was deleted, and none is deleted twice.** In every reachable state
    the cookie of a call with answers to come is alive, that of a call that is over was deleted
    once, and none of these, nor of the cancelled ones, was touched after that. -/
theorem cookies_safe (h : Traffic.run as = some t) :
    (∀ f ∈ t.flights, f.cookie.deletes = 0 ∧ f.cookie.usedAfterDelete = false) ∧
      (∀ f ∈ t.landed, f.cookie.deletes = 1 ∧ f.cookie.usedAfterDelete = false) ∧
      ∀ id err c, .cancelled id err c ∈ t.impl.log →
        c.deletes ≤ 1 ∧ c.usedAfterDelete = false := by
  have ho := run_orderly h
  refine ⟨?_, ?_, ?_⟩
  · intro f hf
    obtain ⟨⟨c₀, hu⟩, _⟩ := ho.flights f hf
    exact hu.alive
  · intro f hf
    obtain ⟨⟨c₀, hover⟩, _⟩ := ho.landed f hf
    exact ⟨hover.deletes, hover.unused⟩
  · intro id err c hmem
    obtain ⟨k, args, _, hc⟩ := ho.traced.cancelled id err c hmem
    exact ⟨hc.deletes, hc.unused⟩

/-- **What is over was reported, to whoever asked.** In every reachable state, a call that has had
    its last answer is one of the accepted requests, and its callback heard of it: for a key-value
    call every key was answered once and these answers were told, for any other there was one
    call. -/
theorem landed_reported (h : Traffic.run as = some t) :
    ∀ f ∈ t.landed, t.requests[f.id]? = some (f.kind, f.args) ∧
      (f.kind.cls.cookieKind = .plain → ∃ c rs, c.callback = lastArg f.args ∧
        f.heard = rs.map .keyed ∧ (rs.map (·.key)).Perm (keysAsked f.call) ∧
        f.cookie = Cookie.receiveAll rs c ∧
        Answered c (rs.map fun r => c.responseInfo r) fun m => Cookie.receiveAll (rs.take m) c) ∧
      (f.kind.cls.cookieKind ≠ .plain →
        ∃ as, f.cookie.calls = [{ fn := lastArg f.args, args := as }]) := by
  intro f hf
  obtain ⟨⟨c₀, hover⟩, hreq⟩ := (run_orderly h).landed f hf
  refine ⟨hreq, ?_, ?_⟩
  · intro hk
    obtain ⟨rs, hheard, hperm, hcookie, hans⟩ := hover.plain hk
    exact ⟨c₀, rs, hover.given.callback, hheard, hperm, hcookie, hans⟩
  · intro hk
    exact (hover.other hk).once

/-! ## The answers to one call -/

theorem move_id (a : Answer) (f g : Flight) (ended : Bool) (h : Flight.move a f = some (g, ended)) :
    g.id = f.id := by
  obtain ⟨g', hg, he⟩ := Option.map_eq_some_iff.mp h
  cases he
  exact (answer_fields hg).1

/-- An answer is a message to the call it is for. -/
theorem step_answer {e : Nat × Answer} (hback : (t.impl.jsRuns && t.impl.alive) = true) :
    Traffic.step (.answer e.1 e.2) t =
      (Pool.act (·.id) Flight.move e t.calls).map fun p =>
        { t with flights := p.live, landed := p.done } := by
  unfold Traffic.step Pool.act Traffic.calls
  simp only [if_pos hback]
  cases hfind : t.flights.find? fun f => f.id = e.1 with
  | none => rfl
  | some f =>
    simp only [Option.bind_eq_bind, Option.bind_some, Flight.move]
    cases hg : f.answer e.2 with
    | none => rfl
    | some g =>
      simp only [Option.map_some, Option.bind_some, Traffic.settle, Pool.settle]
      split <;> rfl

/-- A schedule of answers is a run of the calls; the connection is left alone. -/
theorem exec_answering {es : List (Nat × Answer)}
    (hback : (t.impl.jsRuns && t.impl.alive) = true) :
    Run.exec Traffic.step t (answering es) =
      (Run.exec (Pool.act (·.id) Flight.move) t.calls es).map fun p =>
        { t with flights := p.live, landed := p.done } := by
  induction es generalizing t with
  | nil => rfl
  | cons e es ih =>
    show (Traffic.step (.answer e.1 e.2) t).bind _ = ((Pool.act _ _ e t.calls).bind _).map _
    rw [step_answer hback]
    cases hact : Pool.act (·.id) Flight.move e t.calls with
    | none => rfl
    | some p => exact ih (t := { t with flights := p.live, landed := p.done }) hback

theorem Orderly.distinct (h : Orderly t) : (t.calls.live.map (·.id)).Nodup :=
  nodup_of_places h.places h.taken

/-- An answer by key to a call that owes the key. -/
theorem move_keyed {f : Flight} {r : Cookie.Response} (hk : f.kind.cls.cookieKind = .plain)
    (hmem : r.key ∈ f.owed) :
    Flight.move (.keyed r) f =
      some ({ f with
        cookie := f.cookie.receive r, owed := f.owed.erase r.key, heard := f.heard ++ [.keyed r] },
        decide (f.owed.erase r.key = [])) := by
  have hexp : f.expects (.keyed r) = true := by
    simp [Flight.expects, Answer.suits, hk, hmem]
  unfold Flight.move Flight.answer
  rw [if_pos hexp]
  rfl

/-- **A key-value call takes any answers to keys it owes**, in any order, and is ended when it owes
    no more. -/
theorem follow_keyed {rs : List Cookie.Response} {rest : List Bytes} (f : Flight)
    (hk : f.kind.cls.cookieKind = .plain) (hne : f.owed ≠ [])
    (howed : f.owed.Perm (rs.map (·.key) ++ rest)) :
    ∃ owed, owed.Perm rest ∧ Pool.follow Flight.move (rs.map .keyed) f =
      some ({ f with
        cookie := Cookie.receiveAll rs f.cookie, owed := owed
        heard := f.heard ++ rs.map .keyed }, decide (rest = [])) := by
  induction rs generalizing f with
  | nil =>
    have hrest : rest ≠ [] := fun h => hne (h ▸ howed).eq_nil
    refine ⟨f.owed, howed, ?_⟩
    rw [decide_eq_false hrest, List.map_nil, List.append_nil]
    rfl
  | cons r rs ih =>
    have hmem : r.key ∈ f.owed := howed.mem_iff.mpr (by simp)
    have hpaid : (f.owed.erase r.key).Perm (rs.map (·.key) ++ rest) := by
      have herase := howed.erase r.key
      rwa [List.map_cons, List.cons_append, List.erase_cons_head] at herase
    have hmove := move_keyed hk hmem
    rw [List.map_cons]
    by_cases hnil : f.owed.erase r.key = []
    · rw [hnil] at hpaid
      obtain ⟨hrs, hrest⟩ := List.append_eq_nil_iff.mp hpaid.symm.eq_nil
      rw [List.map_eq_nil_iff] at hrs
      subst hrs hrest
      rw [decide_eq_true hnil] at hmove
      refine ⟨[], .refl _, ?_⟩
      rw [List.map_nil, Pool.follow_over hmove, hnil]
      rfl
    · rw [decide_eq_false hnil] at hmove
      obtain ⟨owed, hperm, hfollow⟩ := ih { f with
        cookie := f.cookie.receive r, owed := f.owed.erase r.key
        heard := f.heard ++ [.keyed r] } hk hnil hpaid
      refine ⟨owed, hperm, ?_⟩
      rw [Pool.follow_on hmove, hfollow, List.append_assoc]
      rfl

/-- **Every open call can be ended.** -/
theorem Underway.ends {c₀ : Cookie} {f : Flight} (hu : Underway c₀ f) :
    ∃ g, Pool.follow Flight.move f.lastAnswers f = some (g, true) := by
  -- one answer that is the end
  have once {a : Answer} {cookie : Cookie} (he : f.expects a = true)
      (hd : a.deliver f.cookie = some cookie) (hl : a.isLast f.owed = true) :
      ∃ g, Pool.follow Flight.move [a] f = some (g, true) := by
    have hmove : Flight.move a f =
        some ({ f with cookie := cookie, owed := a.pay f.owed, heard := f.heard ++ [a] }, true) := by
      unfold Flight.move Flight.answer
      rw [if_pos he, hd, hl]
      rfl
    exact ⟨_, Pool.follow_over hmove⟩
  unfold Flight.lastAnswers
  cases hk : f.kind.cls.cookieKind with
  | plain =>
    obtain ⟨_, _, _, _, hne⟩ := hu.plain hk
    let rs : List Cookie.Response :=
      f.owed.map fun key => { err := LCB_SUCCESS, key := key, resp := .unlock }
    have hkeys : f.owed.Perm (rs.map (·.key) ++ []) := by
      rw [List.append_nil]
      exact .of_eq (keys_of_owed f.owed).symm
    obtain ⟨owed, _, hfollow⟩ := follow_keyed f hk hne hkeys
    rw [List.map_map] at hfollow
    exact ⟨_, hfollow⟩
  | observe | stats | http =>
    refine once ?_ rfl rfl
    simp [Flight.expects, Answer.suits, hk]

/-- **No call gets stuck.** In every reachable state in which libcouchbase can call back, its handle
    not destroyed, it can answer so that all calls are over, and then every accepted request waits,
    is over, or was cancelled. -/
theorem calls_can_land (h : Traffic.run as = some t) (hjs : t.impl.jsRuns = true)
    (halive : t.impl.alive = true) :
    ∃ es t', Run.exec Traffic.step t (answering es) = some t' ∧ t'.flights = [] ∧
      (t'.impl.waiting.map (·.id) ++ t'.landed.map (·.id) ++ t'.impl.cancelled).Perm
        (List.range t'.requests.length) := by
  have ho := run_orderly h
  have hfin : ∀ f ∈ t.calls.live, ∃ g, Pool.follow Flight.move f.lastAnswers f = some (g, true) := by
    intro f hf
    obtain ⟨⟨c₀, hu⟩, _⟩ := ho.flights f hf
    exact hu.ends
  obtain ⟨es, p, hp, hlive⟩ := Pool.exec_finish move_id ho.distinct hfin
  have hrun : Run.exec Traffic.step t (answering es) =
      some { t with flights := p.live, landed := p.done } := by
    rw [exec_answering (Bool.and_eq_true_iff.mpr ⟨hjs, halive⟩), hp]
    rfl
  have ho' := Run.exec_inv_all (fun _ _ _ ho hstep => step_orderly ho hstep) ho hrun
  refine ⟨es, _, hrun, hlive, ?_⟩
  have hplaces := ((ho'.taken.append_left _).append_right _).trans ho'.places
  rw [ho'.traced.numbered]
  simpa [hlive] using hplaces

end Runs

end Proof

section Example

open scoped SmallRuntime

/-- A get of two keys waits for the connection; a get, sent at once, is answered before it is. -/
def twoGets : List TrafficAction :=
  [.impl (.makeOperation .get [.array [.string "a", .string "b"], .undefined, .function 1] 0),
    .impl (.onConfig true), .impl (.makeOperation .get [.string "c", .undefined, .function 2] 0),
    .answer 1 (.keyed { err := 0, key := [99], resp := .get 0 1 [49] }),
    .impl .ret, .impl (.drain 0), .impl (.drain 0),
    .answer 0 (.keyed { err := 13, key := [98], resp := .get 0 0 [] })]

theorem Proof.requests_placed_gets : ∃ t, Traffic.run twoGets = some t ∧
    t.requests.length = 2 ∧
    (t.impl.waiting.map (·.id) ++ (t.flights.map (·.id) ++ t.landed.map (·.id)) ++
      t.impl.cancelled).Perm (List.range t.requests.length) := by
  obtain ⟨t, ht, htest⟩ := (Option.any_eq_true _ _).mp
    (show (Traffic.run twoGets).any (fun t => t.requests.length = 2) = true by decide +kernel)
  exact ⟨t, ht, of_decide_eq_true htest, Proof.requests_placed ht⟩

theorem Proof.cookies_safe_gets : ∃ t, Traffic.run twoGets = some t ∧
    t.flights.length = 1 ∧ ∀ f ∈ t.flights, f.cookie.deletes = 0 := by
  obtain ⟨t, ht, htest⟩ := (Option.any_eq_true _ _).mp
    (show (Traffic.run twoGets).any (fun t => t.flights.length = 1) = true by decide +kernel)
  exact ⟨t, ht, of_decide_eq_true htest, fun f hf => ((Proof.cookies_safe ht).1 f hf).1⟩

theorem Proof.landed_reported_gets : ∃ t, Traffic.run twoGets = some t ∧
    t.landed.length = 1 ∧ ∀ f ∈ t.landed, t.requests[f.id]? = some (f.kind, f.args) := by
  obtain ⟨t, ht, htest⟩ := (Option.any_eq_true _ _).mp
    (show (Traffic.run twoGets).any (fun t => t.landed.length = 1) = true by decide +kernel)
  exact ⟨t, ht, of_decide_eq_true htest, fun f hf => (Proof.landed_reported ht f hf).1⟩

/-- Two calls on an open connection. -/
def twoOpen : List TrafficAction :=
  [.impl (.onConfig true), .impl (.makeOperation .get [.string "a", .undefined, .function 1] 0),
    .impl (.makeOperation .get [.string "b", .undefined, .function 2] 0)]

theorem Proof.calls_can_land_open : ∃ t es t', Traffic.run twoOpen = some t ∧
    t.flights.length = 2 ∧ Run.exec Traffic.step t (answering es) = some t' ∧
    t'.flights = [] := by
  obtain ⟨t, ht, htest⟩ := (Option.any_eq_true _ _).mp
    (show (Traffic.run twoOpen).any (fun t =>
      t.impl.jsRuns && t.impl.alive && t.flights.length = 2) = true by decide +kernel)
  obtain ⟨hback, hlen⟩ := Bool.and_eq_true_iff.mp htest
  obtain ⟨hjs, halive⟩ := Bool.and_eq_true_iff.mp hback
  obtain ⟨es, t', hrun, hnone, _⟩ := Proof.calls_can_land ht hjs halive
  exact ⟨t, es, t', ht, of_decide_eq_true hlen, hrun, hnone⟩

end Example

end Couchnode
