import Couchnode.Proof.Deferral

/-!
# What a step of the connection can do

`Moves s a s'` lists the transitions of the machine, one constructor each, with the state they
lead to written out. `step_moves` is the only place where `Impl.step` is unfolded: every
invariant of the machine is a case analysis over `Moves`.

The memory of an accepted request is simplified on the way: the original of a queued copy frees
nothing (`makePersistent_ready`), and a request that executes at once can always be read
(`execute_ready`), so the only thing that stops a step after the arguments were taken is a
fault of the validators themselves.
-/

set_option autoImplicit false

namespace Couchnode

variable [Runtime]

/-- An accepted request with its cookie. -/
def Command.withCookie (k : Kind) (hd : Header k.Opts) (st : PState) : Command k.Opts :=
  let c := Command.ofState hd st
  { c with cookie := some (c.createCookie k.cls) }

/-- The copy that waits. -/
def Command.queued (k : Kind) (hd : Header k.Opts) (st : PState) : Command k.Opts :=
  ((Command.withCookie k hd st).makePersistent st.heap).2.1

/-- What is logged about a command that was handed to libcouchbase. -/
def Event.ofResult (id : Nat) (call : LcbCall) (err : Int) (cookie : Cookie) (keys : List Value) :
    List Event :=
  .executed id call err ::
    (if err = LCB_SUCCESS then [] else [.cancelled id err (cookie.cancel err keys)])

namespace Proof

open Command Impl

/-- The request was accepted on the heap of the connection. -/
abbrev Accepts (s : Impl) (k : Kind) (args : List Value) (hd : Header k.Opts) (st : PState) :
    Prop := accept k.cls args (Command.start s.heap) = .done hd st

inductive Moves (s : Impl) : Action → Impl → Prop where
  | reject {k : Kind} {args : List Value} {err : Int} {st : PState} {r : Report}
      (hjs : s.jsRuns = true) (hacc : accept k.cls args (Command.start s.heap) = .refused st)
      (hr : bailOut args st.err = some r) :
      Moves s (.makeOperation k args err)
        { s with heap := unwind st, log := s.log ++ [.rejected r] }
  | queue {k : Kind} {args : List Value} {err : Int} {hd : Header k.Opts} {st : PState}
      (hjs : s.jsRuns = true) (hacc : Accepts s k args hd st) (hc : s.connected = false) :
      Moves s (.makeOperation k args err)
        { s with
          heap := st.heap.alloc .object, nextId := s.nextId + 1
          log := s.log ++ [.accepted s.nextId s.isShutdown]
          pendingCommands :=
            s.pendingCommands ++ [{ id := s.nextId, kind := k, cmd := queued k hd st }] }
  | execute {k : Kind} {args : List Value} {err : Int} {hd : Header k.Opts} {st : PState}
      {call : LcbCall} (hjs : s.jsRuns = true) (hacc : Accepts s k args hd st)
      (hc : s.connected = true) (hcall : (withCookie k hd st).execute k.cls st.heap = some call) :
      Moves s (.makeOperation k args err)
        { s with
          heap := (withCookie k hd st).destroy st.heap, nextId := s.nextId + 1
          log := s.log ++ .accepted s.nextId s.isShutdown ::
            Event.ofResult s.nextId call err ((ofState hd st).createCookie k.cls)
              (withCookie k hd st).getKeyList }
  | shutdown (hjs : s.jsRuns = true) (hd : s.isShutdown = false) :
      Moves s .shutdown { s with isShutdown := true, idle := .armed }
  | shutdownAgain (hjs : s.jsRuns = true) (hd : s.isShutdown = true) : Moves s .shutdown s
  | configured (hjs : s.jsRuns = true) (ha : s.alive = true) (hc : s.connected = false) :
      Moves s (.onConfig true)
        { s with
          connected := true, control := .user :: .drain LCB_SUCCESS :: s.control
          log := s.log ++ [.connect (errorObject LCB_SUCCESS)] }
  | configIgnored {isNew : Bool} (hjs : s.jsRuns = true) : Moves s (.onConfig isNew) s
  | failed {err : Int} (hjs : s.jsRuns = true) (ha : s.alive = true) (hc : s.connected = false) :
      Moves s (.errorCallback err)
        { s with
          connected := true, control := .user :: .user :: s.control
          log := s.log ++ [.connect (errorObject err)] }
  | error {err : Int} (hjs : s.jsRuns = true) (ha : s.alive = true) (hc : s.connected = true) :
      Moves s (.errorCallback err) { s with control := .user :: s.control }
  | idleFired (hc : s.control = []) (hi : s.idle = .armed) :
      Moves s .shutdownCb { s with idle := .fired }
  | drained {err g : Int} {rest : List Frame} (hc : s.control = .drain g :: rest)
      (hp : s.pendingCommands = []) :
      Moves s (.drain err) { s with control := rest, configCallback := false }
  | scheduled {g : Int} {rest : List Frame} {p : Pending} {ps : List Pending} {call : LcbCall}
      (hc : s.control = .drain g :: rest) (hp : s.pendingCommands = p :: ps)
      (hg : g = LCB_SUCCESS) (hcall : p.cmd.execute p.kind.cls s.heap = some call) :
      Moves s (.drain LCB_SUCCESS)
        { s with
          heap := p.cmd.deleteObject s.heap, pendingCommands := ps
          log := s.log ++ [.executed p.id call LCB_SUCCESS] }
  | scheduleFailed {err g : Int} {rest : List Frame} {p : Pending} {ps : List Pending}
      {call : LcbCall} {cookie : Cookie} (hc : s.control = .drain g :: rest)
      (hp : s.pendingCommands = p :: ps) (hg : g = LCB_SUCCESS) (he : err ≠ LCB_SUCCESS)
      (hcall : p.cmd.execute p.kind.cls s.heap = some call) (hck : p.cmd.cookie = some cookie) :
      Moves s (.drain err)
        { s with
          control := .user :: .popFront g :: rest
          log := s.log ++ Event.ofResult p.id call err cookie p.cmd.getKeyList }
  | globalError {err g : Int} {rest : List Frame} {p : Pending} {ps : List Pending}
      {cookie : Cookie} (hc : s.control = .drain g :: rest)
      (hp : s.pendingCommands = p :: ps) (hg : g ≠ LCB_SUCCESS) (hck : p.cmd.cookie = some cookie) :
      Moves s (.drain err)
        { s with
          control := .user :: .popFront g :: rest
          log := s.log ++ [.cancelled p.id g (cookie.cancel g p.cmd.getKeyList)] }
  | popFront {err g : Int} {rest : List Frame} (hc : s.control = .popFront g :: rest) :
      Moves s (.drain err) { popCommand s with control := .drain g :: rest }
  | ret {rest : List Frame} (hc : s.control = .user :: rest) :
      Moves s .ret { s with control := rest }

section

variable {s s' : Impl} {k : Kind} {args : List Value} {hd : Header k.Opts} {st : PState}

/-- An accepted request, with its cookie, is ready; so is its copy. -/
theorem withCookie_ready {h : Heap} (hacc : accept k.cls args (Command.start h) = .done hd st) :
    ∃ reqs, (k.cls.cookieKind = .http → reqs.length = 1) ∧
      reqs.length = k.cls.listSize hd.keys ∧
      Ready h.length st.heap (withCookie k hd st) reqs ∧
      Ready h.length (st.heap.alloc .object) (queued k hd st) reqs ∧
      (queued k hd st).blocks = (withCookie k hd st).blocks ∧
      ((withCookie k hd st).makePersistent st.heap).2.2.destroy (st.heap.alloc .object) =
        st.heap.alloc .object := by
  obtain ⟨reqs, _, hsize, hhttp, hr⟩ :=
    accept_ready hacc (some ((ofState hd st).createCookie k.cls))
  obtain ⟨hcp, hblocks, hgone⟩ := makePersistent_ready hr
  refine ⟨_, ?_, hsize, hr, hcp, hblocks, hgone⟩
  intro h
  rw [hsize]
  exact hhttp h

/-- Accepting a request never faults after the validators are through. -/
theorem submit_moves (err : Int) (hjs : s.jsRuns = true) (hacc : Accepts s k args hd st) :
    ∃ s₁, s.submit k (ofState hd st) st.heap err = some s₁ ∧
      Moves s (.makeOperation k args err) s₁ := by
  obtain ⟨reqs, hhttp, _, hr, _, _, hgone⟩ := withCookie_ready hacc
  cases hc : s.connected with
  | false =>
    have hq : Moves s (.makeOperation k args err) _ := .queue hjs hacc hc
    rw [← hgone] at hq
    refine ⟨_, ?_, hq⟩
    have hneg : (!s.connected) = true := by simp [hc]
    unfold Impl.submit
    rw [if_pos hneg]
    rfl
  | true =>
    have hcall := execute_ready hr hhttp
    refine ⟨_, ?_, .execute hjs hacc hc hcall⟩
    have hneg : ¬ (!s.connected) = true := by simp [hc]
    unfold Impl.submit
    rw [if_neg hneg]
    show ((withCookie k hd st).execute k.cls st.heap).bind _ = _
    rw [hcall]
    by_cases he : err = LCB_SUCCESS <;> simp [he, Event.ofResult, withCookie]

theorem makeOperation_moves {err : Int} (hjs : s.jsRuns = true)
    (h : s.makeOperation k args err = some s') : Moves s (.makeOperation k args err) s' := by
  unfold Impl.makeOperation at h
  cases hacc : accept k.cls args (Command.start s.heap) with
  | fault =>
    rw [hacc] at h
    cases h
  | refused st =>
    rw [hacc] at h
    obtain ⟨r, hr, h⟩ := Option.bind_eq_some_iff.mp h
    cases h
    exact .reject hjs hacc hr
  | done hd st =>
    rw [hacc] at h
    obtain ⟨s₁, hs₁, hm⟩ := submit_moves err hjs hacc
    simp only [hs₁] at h
    cases h
    exact hm

theorem drain_moves {err : Int} (h : s.drain err = some s') : Moves s (.drain err) s' := by
  unfold Impl.drain at h
  split at h
  · next g rest hc =>
    unfold Impl.drainStep at h
    split at h
    · next hp =>
      cases h
      exact .drained hc hp
    · next p ps hp =>
      obtain ⟨⟨evs, e⟩, hfront, h⟩ := Option.bind_eq_some_iff.mp h
      unfold Impl.runFront at hfront
      -- with a global error the commands are cancelled and never executed
      by_cases hg : g = LCB_SUCCESS
      · rw [if_pos hg] at hfront
        obtain ⟨call, hcall, he⟩ := Option.map_eq_some_iff.mp hfront
        cases he
        by_cases herr : err = LCB_SUCCESS
        · subst herr
          simp only [if_true] at h
          cases h
          have hm := Moves.scheduled hc hp hg hcall
          have hpop : popCommand { s with log := s.log ++ [.executed p.id call LCB_SUCCESS] } =
              { s with
                heap := p.cmd.deleteObject s.heap, pendingCommands := ps
                log := s.log ++ [.executed p.id call LCB_SUCCESS] } := by
            unfold popCommand
            simp only [hp]
          rw [hpop]
          exact hm
        · simp only [if_neg herr] at h
          obtain ⟨cookie, hck, h⟩ := Option.bind_eq_some_iff.mp h
          cases h
          have hm := Moves.scheduleFailed hc hp hg herr hcall hck
          simp only [Event.ofResult, if_neg herr] at hm
          rw [List.append_assoc]
          exact hm
      · rw [if_neg hg] at hfront
        cases hfront
        simp only [if_neg hg] at h
        obtain ⟨cookie, hck, h⟩ := Option.bind_eq_some_iff.mp h
        cases h
        rw [List.append_nil]
        exact .globalError hc hp hg hck
  · next g rest hc =>
    cases h
    exact .popFront hc
  · cases h

/-- **Every step is one of the transitions.** -/
theorem step_moves {a : Action} (h : Impl.step a s = some s') : Moves s a s' := by
  unfold Impl.step at h
  cases a with
  | makeOperation k args err =>
    simp only at h
    split at h
    · next hjs => exact makeOperation_moves hjs h
    · cases h
  | shutdown =>
    simp only at h
    split at h
    · next hjs =>
      cases h
      unfold Impl.shutdown
      split
      · next hd => exact .shutdownAgain hjs hd
      · next hd => exact .shutdown hjs (by simpa using hd)
    · cases h
  | onConfig isNew =>
    simp only at h
    split at h
    · next hg =>
      obtain ⟨⟨hjs, ha⟩, _⟩ : (s.jsRuns = true ∧ s.alive = true) ∧ s.configCallback = true := by
        simpa using hg
      cases h
      unfold Impl.onConfig
      split
      · exact .configIgnored hjs
      next hc =>
      split
      · exact .configIgnored hjs
      next hn =>
      have hnew : isNew = true := by simpa using hn
      subst hnew
      exact .configured hjs ha (by simpa using hc)
    · cases h
  | errorCallback err =>
    simp only at h
    split at h
    · next hg =>
      obtain ⟨hjs, ha⟩ : s.jsRuns = true ∧ s.alive = true := by simpa using hg
      cases h
      unfold Impl.errorCallback
      split
      · next hc => exact .error hjs ha hc
      · next hc => exact .failed hjs ha (by simpa using hc)
    · cases h
  | shutdownCb =>
    simp only at h
    split at h
    · next hg =>
      obtain ⟨hc, hi⟩ : s.control = [] ∧ s.idle = .armed := by simpa using hg
      cases h
      exact .idleFired hc hi
    · cases h
  | drain err => exact drain_moves h
  | ret =>
    simp only at h
    split at h
    · next rest hc =>
      cases h
      exact .ret hc
    · cases h

end

end Proof

end Couchnode
