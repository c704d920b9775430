import Couchnode.Proof.Ledger
import Couchnode.V8.Runtime

/-!
# What becomes of accepted requests

The history of a request is the part of the log that is about it. In every reachable state a
request that waits has only been accepted, and one that does not has been disposed of once:
handed to libcouchbase, and cancelled if that failed, or cancelled without (`run_histories`).

Whether anything still waits once the connection is decided is another matter.
`onConfig` drains the queue, `errorCallback` sets the same latch and does not: the commands
queued at that moment stay there for good. `settled_iff` is exactly when
the queue is empty between events on a decided connection.
-/

set_option autoImplicit false

namespace Couchnode

namespace Proof

open Command Impl Fifo

variable [Runtime]

/-! ## Histories -/

/-- A request was executed, and cancelled if that failed, or was cancelled with an error. -/
def Disposed (id : Nat) (evs : List Event) : Prop :=
  (∃ call err cookie keys, evs = Event.ofResult id call err cookie keys) ∨
    ∃ err cookie, err ≠ LCB_SUCCESS ∧ evs = [.cancelled id err cookie]

structure Histories (s : Impl) : Prop where
  unborn : ∀ id, s.nextId ≤ id → s.history id = []
  waiting : ∀ p ∈ s.waiting, ∃ b, s.history p.id = [.accepted p.id b]
  gone : ∀ id, id < s.nextId → id ∉ s.waiting.map (·.id) →
    ∃ b evs, s.history id = .accepted id b :: evs ∧ Disposed id evs

section

variable {s s' : Impl} {a : Action} {as : List Action} {evs : List Event} {id j : Nat}

omit [Runtime] in
theorem history_append (hlog : s'.log = s.log ++ evs) :
    s'.history id = s.history id ++ evs.filter fun e => e.request = some id := by
  unfold history
  rw [hlog, List.filter_append]

omit [Runtime] in
/-- Events about one request are all of its history and none of another's. -/
theorem filter_request (h : ∀ e ∈ evs, e.request = some j) :
    (evs.filter fun e => e.request = some id) = if id = j then evs else [] := by
  by_cases hid : id = j
  · rw [if_pos hid, List.filter_eq_self]
    intro e he
    rw [h e he, hid]
    simp
  · rw [if_neg hid, List.filter_eq_nil_iff]
    intro e he
    rw [h e he]
    simpa using fun hj => hid (Eq.symm hj)

theorem request_ofResult {call : LcbCall} {err : Int} {cookie : Cookie} {keys : List Value} :
    ∀ e ∈ Event.ofResult id call err cookie keys, e.request = some id := by
  intro e he
  unfold Event.ofResult at he
  rcases List.mem_cons.mp he with rfl | he
  · rfl
  · split at he
    · cases he
    · rw [List.mem_singleton.mp he]
      rfl

theorem histories_start : Histories {} where
  unborn _ _ := rfl
  waiting p hp := by cases hp
  gone id h := by cases h

/-- A request in the line was accepted. -/
theorem Ledger.waiting_lt (h : Ledger s) {p : Pending} (hp : p ∈ s.waiting) : p.id < s.nextId := by
  have hm := (h.accounted.mem_line.mp (List.mem_map_of_mem hp)).1
  rw [h.numbers] at hm
  exact List.mem_range.mp hm

/-- Nothing about any request was logged, or only about requests that are over. -/
theorem Histories.keep (hh : Histories s) (hn : s'.nextId = s.nextId)
    (hw : s'.waiting = s.waiting) (hs : ∀ id, s'.history id = s.history id) : Histories s' := by
  refine ⟨?_, ?_, ?_⟩
  · intro id hid
    rw [hs]
    exact hh.unborn id (hn ▸ hid)
  · intro p hp
    rw [hs]
    exact hh.waiting p (hw ▸ hp)
  · intro id hid hnot
    rw [hs]
    exact hh.gone id (hn ▸ hid) (hw ▸ hnot)

/-- The head of the line is disposed of. -/
theorem Histories.dispose (hl : Ledger s) (hh : Histories s) {p : Pending}
    (hw : s.waiting = p :: s'.waiting) (hn : s'.nextId = s.nextId)
    (hlog : s'.log = s.log ++ evs) (habout : ∀ e ∈ evs, e.request = some p.id)
    (hd : Disposed p.id evs) : Histories s' := by
  have hhist (id : Nat) : s'.history id = s.history id ++ if id = p.id then evs else [] := by
    rw [history_append hlog, filter_request habout]
  have hp : p ∈ s.waiting := by
    rw [hw]
    exact List.mem_cons_self ..
  have hnodup := hl.accounted.nodup
  rw [hw, List.map_cons, List.nodup_cons] at hnodup
  refine ⟨?_, ?_, ?_⟩
  · intro id hid
    have hne : id ≠ p.id := by
      have := hl.waiting_lt hp
      omega
    rw [hhist, if_neg hne, List.append_nil]
    exact hh.unborn id (by omega)
  · intro q hq
    have hne : q.id ≠ p.id := fun he => hnodup.1 (he ▸ List.mem_map_of_mem hq)
    rw [hhist, if_neg hne, List.append_nil]
    apply hh.waiting
    rw [hw]
    exact List.mem_cons_of_mem _ hq
  · intro id hid hnot
    rw [hhist]
    by_cases he : id = p.id
    · obtain ⟨b, hb⟩ := hh.waiting p hp
      rw [if_pos he, he, hb]
      exact ⟨b, evs, rfl, hd⟩
    · rw [if_neg he, List.append_nil]
      apply hh.gone id (by omega)
      rw [hw, List.map_cons, List.mem_cons, not_or]
      exact ⟨he, hnot⟩

/-- A request is accepted, and waits or is disposed of at once. -/
theorem Histories.accept (hl : Ledger s) (hh : Histories s) {b : Bool}
    (hn : s'.nextId = s.nextId + 1) (hlog : s'.log = s.log ++ .accepted s.nextId b :: evs)
    (habout : ∀ e ∈ evs, e.request = some s.nextId)
    (hin : ∀ p ∈ s.waiting, p ∈ s'.waiting)
    (hout : ∀ p ∈ s'.waiting, p ∈ s.waiting ∨ p.id = s.nextId ∧ evs = [])
    (hd : s.nextId ∉ s'.waiting.map (·.id) → Disposed s.nextId evs) : Histories s' := by
  have hhist (id : Nat) : s'.history id =
      s.history id ++ if id = s.nextId then .accepted s.nextId b :: evs else [] := by
    rw [history_append hlog, filter_request]
    intro e he
    rcases List.mem_cons.mp he with rfl | he
    · rfl
    · exact habout e he
  refine ⟨?_, ?_, ?_⟩
  · intro id hid
    rw [hhist, if_neg (by omega), List.append_nil]
    exact hh.unborn id (by omega)
  · intro p hp
    rcases hout p hp with hp | ⟨hid, hevs⟩
    · have := hl.waiting_lt hp
      rw [hhist, if_neg (by omega), List.append_nil]
      exact hh.waiting p hp
    · rw [hhist, hid, if_pos rfl, hh.unborn _ (Nat.le_refl _), hevs]
      exact ⟨b, rfl⟩
  · intro id hid hnot
    rw [hhist]
    by_cases he : id = s.nextId
    · rw [if_pos he, he, hh.unborn _ (Nat.le_refl _)]
      exact ⟨b, evs, rfl, hd (he ▸ hnot)⟩
    · rw [if_neg he, List.append_nil]
      apply hh.gone id (by omega)
      intro hm
      obtain ⟨p, hp, rfl⟩ := List.mem_map.mp hm
      exact hnot (List.mem_map_of_mem (hin p hp))

theorem effect_histories (hl : Ledger s) (hh : Histories s) (he : Effect s a s') :
    Histories s' := by
  cases he with
  | silent hlog hevs hw hn =>
    apply hh.keep hn hw
    intro id
    rw [history_append hlog, List.filter_eq_nil_iff.mpr, List.append_nil]
    intro e he
    rw [hevs e he]
    simp
  | joined hacc hc hlog hw hn =>
    refine hh.accept hl hn hlog (fun e he => by cases he) ?_ ?_ ?_
    · intro p hp
      rw [hw]
      exact List.mem_append_left _ hp
    · intro p hp
      rw [hw, List.mem_append, List.mem_singleton] at hp
      rcases hp with hp | rfl
      · exact .inl hp
      · exact .inr ⟨rfl, rfl⟩
    · intro hnot
      rw [hw, List.map_append] at hnot
      exact absurd (List.mem_append_right _ (List.mem_singleton_self _)) hnot
  | passed hacc hc hlog hw hn =>
    refine hh.accept hl hn hlog request_ofResult ?_ ?_ ?_
    · intro p hp
      exact hw ▸ hp
    · intro p hp
      exact .inl (hw ▸ hp)
    · intro _
      exact .inl ⟨_, _, _, _, rfl⟩
  | served hf hw hck hlog hn =>
    exact hh.dispose hl hw hn hlog request_ofResult (.inl ⟨_, _, _, _, rfl⟩)
  | dropped hg hf hw hck hlog hn =>
    refine hh.dispose hl hw hn hlog ?_ (.inr ⟨_, _, hg, rfl⟩)
    intro e he
    rw [List.mem_singleton.mp he]
    rfl

/-- **In every reachable state every accepted request waits, or was disposed of once.** -/
theorem run_histories (h : Impl.run as = some s) : Histories s := by
  have hend := Run.exec_inv_all (I := fun s => Ledger s ∧ Histories s)
    (fun a s s' hs hst => ⟨step_ledger hs.1 hst, effect_histories hs.1 hs.2 (step_effect hs.1 hst)⟩)
    ⟨ledger_start, histories_start⟩ h
  exact hend.2

/-! ## Commands nobody comes back for -/

/-- An error decides the connection while commands are queued. -/
def Strands (a : Action) (s : Impl) : Prop :=
  match a with
  | .errorCallback _ => s.connected = false ∧ s.pendingCommands ≠ []
  | _ => False

/-- On a decided connection the queue is empty, or somebody is working on it. -/
def Attended (s : Impl) : Prop :=
  s.connected = true → s.pendingCommands = [] ∨ 0 < s.control.countP Frame.isNative

/-- **A step leaves the queue unattended exactly when it strands it**, and nothing attends to it
    afterwards. -/
theorem moves_attended (hst : Stack s) (hm : Moves s a s') :
    Attended s' ↔ Attended s ∧ ¬ Strands a s := by
  unfold Attended
  -- with a loop on the stack before and after, both sides hold
  have looping {f g : Frame} {rest : List Frame} {t : Impl} (hc : s.control = f :: rest)
      (hf : f.isNative = true) (hg : g.isNative = true)
      (ht : t.control = g :: rest ∨ t.control = .user :: g :: rest) (hno : ¬ Strands a s) :
      (t.connected = true → t.pendingCommands = [] ∨ 0 < t.control.countP Frame.isNative) ↔
        (s.connected = true → s.pendingCommands = [] ∨ 0 < s.control.countP Frame.isNative) ∧
          ¬ Strands a s := by
    have hs : 0 < s.control.countP Frame.isNative := by
      rw [hc, List.countP_cons_of_pos hf]
      exact Nat.succ_pos _
    have ht' : 0 < t.control.countP Frame.isNative := by
      rcases ht with ht | ht
      · rw [ht, List.countP_cons_of_pos hg]
        exact Nat.succ_pos _
      · rw [ht, native_user, List.countP_cons_of_pos hg]
        exact Nat.succ_pos _
    exact ⟨fun _ => ⟨fun _ => .inr hs, hno⟩, fun _ _ => .inr ht'⟩
  cases hm with
  | queue hjs hacc hc => simp [hc, Strands]
  | configured hjs ha hc => simp [hc, Strands]
  | failed hjs ha hc =>
    unfold Stack at hst
    rw [hc] at hst
    have hzero := Nat.le_zero.mp hst
    simp [hc, Strands, hzero]
  | error hjs ha hc => simp [hc, Strands]
  | drained hc hp => simp [hp, Strands]
  | scheduled hc => exact looping hc rfl rfl (.inl hc) id
  | popFront hc => exact looping hc rfl rfl (.inl rfl) id
  | scheduleFailed hc | globalError hc => exact looping hc rfl rfl (.inr rfl) id
  | ret hc => simp [hc, Strands]
  | _ => exact (and_iff_left id).symm

/-- The queue is attended to after a run exactly when no step of it stranded a command. -/
theorem run_attended (h : Impl.run as = some s) :
    Attended s ↔ Run.Along Impl.step (fun a s => ¬ Strands a s) {} as := by
  have hstart : Attended {} := by
    intro hconn
    cases hconn
  rw [Run.exec_iff_along (fun _ _ _ hl hstep => step_ledger hl hstep)
    (fun _ _ _ hl hstep => moves_attended hl.stack (step_moves hstep)) ledger_start h]
  exact and_iff_right hstart

/-- An accepted request that does not wait any more has been disposed of. -/
theorem run_disposed (h : Impl.run as = some s) (hw : s.waiting = []) {id : Nat} {b : Bool}
    (hmem : .accepted id b ∈ s.log) :
    ∃ evs, s.history id = .accepted id b :: evs ∧ Disposed id evs := by
  have hlt : id < s.nextId := by
    rw [← List.mem_range, ← (run_ledger h).numbers]
    exact List.mem_filterMap.mpr ⟨.joined id, List.mem_filterMap.mpr ⟨_, hmem, rfl⟩, rfl⟩
  obtain ⟨b', evs, hhist, hd⟩ := (run_histories h).gone id hlt (by rw [hw]; simp)
  -- a disposal accepts nothing, so this is the acceptance asked about
  have hin : Event.accepted id b ∈ s.history id := by
    unfold history
    rw [List.mem_filter]
    exact ⟨hmem, by simp [Event.request]⟩
  rw [hhist, List.mem_cons] at hin
  rcases hin with heq | hin
  · cases heq
    exact ⟨evs, hhist, hd⟩
  · rcases hd with ⟨call, err, cookie, keys, rfl⟩ | ⟨err, cookie, _, rfl⟩
    · exact absurd hin accepted_ofResult
    · simp at hin

/-- **When every accepted request is settled.** Between events on a decided connection, the
    queue is empty and every accepted request has been executed or cancelled, once, if and only if
    no error decided the connection while commands were queued. -/
theorem settled_iff (h : Impl.run as = some s) (hq : s.control = []) (hc : s.connected = true) :
    (s.pendingCommands = [] ∧ ∀ id b, .accepted id b ∈ s.log →
        ∃ evs, s.history id = .accepted id b :: evs ∧ Disposed id evs) ↔
      Run.Along Impl.step (fun a s => ¬ Strands a s) {} as := by
  rw [← run_attended h]
  constructor
  · rintro ⟨hp, _⟩ _
    exact .inl hp
  · intro hat
    have hp : s.pendingCommands = [] := by
      rcases hat hc with hp | hpos
      · exact hp
      · rw [hq] at hpos
        exact absurd hpos (Nat.lt_irrefl 0)
    have hw : s.waiting = [] := by
      rw [waiting_of_no_pop (by rw [hq]; rfl), hp]
    refine ⟨hp, ?_⟩
    intro id b hmem
    exact run_disposed h hw hmem

end

end Proof

section Example

open scoped SmallRuntime

/-- A get is queued, the connection comes up, and the get is executed. -/
def drainedGet : List Action :=
  [.makeOperation .get [.string "a", .undefined, .function 1] 0, .onConfig true, .ret, .drain 0,
    .drain 0]

/-- A get is queued, and then the connection fails. -/
def strandedGet : List Action :=
  [.makeOperation .get [.string "a", .undefined, .function 1] 0, .errorCallback 1, .ret, .ret]

theorem Proof.settled_iff_get : ∃ s, Impl.run drainedGet = some s ∧ s.nextId = 1 ∧
    s.pendingCommands = [] ∧ ∀ id b, .accepted id b ∈ s.log →
      ∃ evs, s.history id = .accepted id b :: evs ∧ Proof.Disposed id evs := by
  obtain ⟨s, hs, htest⟩ := (Option.any_eq_true _ _).mp
    (show (Impl.run drainedGet).any
      (fun s => s.control = [] && s.connected && s.nextId = 1) = true by decide +kernel)
  obtain ⟨⟨hq, hc⟩, hn⟩ : (s.control = [] ∧ s.connected = true) ∧ s.nextId = 1 := by
    simpa using htest
  refine ⟨s, hs, hn, (Proof.settled_iff hs hq hc).mpr ?_⟩
  exact ⟨id, fun _ _ => ⟨id, fun _ _ => ⟨id, fun _ _ => ⟨id, fun _ _ => ⟨id, fun _ _ => trivial⟩⟩⟩⟩⟩

/-- The connection is decided and idle, and the get was neither executed nor cancelled. -/
theorem Proof.settled_stranded : ∃ s, Impl.run strandedGet = some s ∧ s.control = [] ∧
    s.connected = true ∧ s.nextId = 1 ∧ s.pendingCommands ≠ [] ∧ (s.history 0).length = 1 := by
  obtain ⟨s, hs, htest⟩ := (Option.any_eq_true _ _).mp
    (show (Impl.run strandedGet).any (fun s => s.control = [] && s.connected && s.nextId = 1 &&
      s.pendingCommands.length = 1 && (s.history 0).length = 1) = true by decide +kernel)
  obtain ⟨⟨⟨⟨hq, hc⟩, hn⟩, hp⟩, hh⟩ : (((s.control = [] ∧ s.connected = true) ∧ s.nextId = 1) ∧
      s.pendingCommands.length = 1) ∧ (s.history 0).length = 1 := by
    simpa using htest
  refine ⟨s, hs, hq, hc, hn, ?_, hh⟩
  intro hnil
  rw [hnil] at hp
  cases hp

end Example

end Couchnode
