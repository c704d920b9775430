import Couchnode.Lib.Fifo
import Couchnode.Proof.Queue

/-!
# The machine as a queue

Seen from the log, the connection is a service point: a request joins when it is accepted, is
served when its command is handed to libcouchbase, and drops out when its cookie is cancelled.
`Effect s a s'` is what a step does at that level, and `moves_effect` says that every step of
the machine is one of these: the machine simulates a plain queue that may also serve on arrival.
The memory, the re-entrant control stack and the arguments are gone from here on.

The line is not always `pendingCommands`. While the front command is being cancelled it is still
there, so `waiting` leaves it out, and that is sound because at most one frame of
`runScheduledOperations` is ever on the stack (`Stack`).
-/

set_option autoImplicit false

namespace Couchnode

/-- Is this a frame of `runScheduledOperations`? -/
def Frame.isNative : Frame → Bool
  | .user => false
  | _ => true

/-- Is the front command being cancelled in this frame? -/
def Frame.isPop : Frame → Bool
  | .popFront _ => true
  | _ => false

namespace Event

/-- The request an event is about. -/
def request : Event → Option Nat
  | accepted id _ => some id
  | executed id _ _ => some id
  | cancelled id _ _ => some id
  | _ => none

def entry : Event → Option (Fifo.Entry Nat)
  | accepted id _ => some (.joined id)
  | executed id _ _ => some (.served id)
  | cancelled id _ _ => some (.dropped id)
  | _ => none

end Event

namespace Impl

/-- The commands that have been neither executed nor cancelled. -/
def waiting (s : Impl) : List Pending :=
  if s.control.any Frame.isPop then s.pendingCommands.tail else s.pendingCommands

/-- The command the loop of `runScheduledOperations` takes up next, when it is its turn. -/
def front (s : Impl) : Option Pending :=
  match s.control with
  | .drain _ :: _ => s.pendingCommands.head?
  | _ => none

/-- The log as the book of a service point. -/
def book (s : Impl) : Fifo.Book Nat := s.log.filterMap Event.entry

/-- What happened to a request. -/
def history (id : Nat) (s : Impl) : List Event := s.log.filter fun e => e.request = some id

end Impl

namespace Proof

open Command Impl Fifo

variable [Runtime]

/-! ## The stack -/

/-- At most one loop is running, and none before the connection is decided. -/
def Stack (s : Impl) : Prop := s.control.countP Frame.isNative ≤ s.connected.toNat

section Frames

variable {s s' : Impl} {f : Frame} {rest : List Frame}

omit [Runtime] in
@[simp] theorem native_user :
    (Frame.user :: rest).countP Frame.isNative = rest.countP Frame.isNative :=
  List.countP_cons_of_neg (by simp [Frame.isNative])

omit [Runtime] in
@[simp] theorem native_drain (g : Int) :
    (Frame.drain g :: rest).countP Frame.isNative = rest.countP Frame.isNative + 1 :=
  List.countP_cons_of_pos rfl

omit [Runtime] in
@[simp] theorem native_popFront (g : Int) :
    (Frame.popFront g :: rest).countP Frame.isNative = rest.countP Frame.isNative + 1 :=
  List.countP_cons_of_pos rfl

omit [Runtime] in
/-- Below the one loop there is no other. -/
theorem Stack.below (h : Stack s) (hc : s.control = f :: rest) (hf : f.isNative = true) :
    rest.any Frame.isPop = false := by
  unfold Stack at h
  rw [hc, List.countP_cons_of_pos hf] at h
  have hrest : rest.countP Frame.isNative = 0 := by
    have := Bool.toNat_le s.connected
    omega
  rw [List.any_eq_false]
  intro g hg
  have hng := List.countP_eq_zero.mp hrest g hg
  cases g with
  | user => simp [Frame.isPop]
  | drain => exact absurd rfl hng
  | popFront => exact absurd rfl hng

omit [Runtime] in
/-- Before the decision nobody is being cancelled. -/
theorem Stack.undecided (h : Stack s) (hc : s.connected = false) :
    s.control.any Frame.isPop = false := by
  unfold Stack at h
  rw [hc] at h
  rw [List.any_eq_false]
  intro g hg
  have hng := List.countP_eq_zero.mp (Nat.le_zero.mp h) g hg
  cases g with
  | user => simp [Frame.isPop]
  | drain => exact absurd rfl hng
  | popFront => exact absurd rfl hng

omit [Runtime] in
@[simp] theorem popCommand_connected : (Impl.popCommand s).connected = s.connected := by
  unfold Impl.popCommand
  cases s.pendingCommands <;> rfl

omit [Runtime] in
@[simp] theorem popCommand_log : (Impl.popCommand s).log = s.log := by
  unfold Impl.popCommand
  cases s.pendingCommands <;> rfl

omit [Runtime] in
@[simp] theorem popCommand_pendingCommands :
    (Impl.popCommand s).pendingCommands = s.pendingCommands.tail := by
  unfold Impl.popCommand
  cases hp : s.pendingCommands with
  | nil => exact hp
  | cons p ps => rfl

theorem moves_stack {a : Action} (h : Stack s) (hm : Moves s a s') : Stack s' := by
  unfold Stack at h ⊢
  cases hm with
  | configured hjs ha hc | failed hjs ha hc =>
    rw [hc] at h
    have hzero := Nat.le_zero.mp h
    simp [hzero]
  | popFront hc | drained hc | scheduleFailed hc | globalError hc | ret hc =>
    rw [hc] at h
    simp at h ⊢
    omega
  | error => simpa using h
  | _ => exact h

end Frames

/-! ## What a step does to the queue -/

inductive Effect (s : Impl) : Action → Impl → Prop where
  | silent {a : Action} {s' : Impl} {evs : List Event} (hlog : s'.log = s.log ++ evs)
      (hevs : ∀ e ∈ evs, e.request = none) (hw : s'.waiting = s.waiting)
      (hn : s'.nextId = s.nextId) : Effect s a s'
  | joined {k : Kind} {args : List Value} {err : Int} {hd : Header k.Opts} {st : PState}
      {s' : Impl} (hacc : Accepts s k args hd st) (hc : s.connected = false)
      (hlog : s'.log = s.log ++ [.accepted s.nextId s.isShutdown])
      (hw : s'.waiting = s.waiting ++ [{ id := s.nextId, kind := k, cmd := queued k hd st }])
      (hn : s'.nextId = s.nextId + 1) : Effect s (.makeOperation k args err) s'
  | passed {k : Kind} {args : List Value} {err : Int} {hd : Header k.Opts} {st : PState}
      {call : LcbCall} {s' : Impl} (hacc : Accepts s k args hd st) (hc : s.connected = true)
      (hlog : s'.log = s.log ++ .accepted s.nextId s.isShutdown ::
        Event.ofResult s.nextId call err ((ofState hd st).createCookie k.cls)
          (withCookie k hd st).getKeyList)
      (hw : s'.waiting = s.waiting) (hn : s'.nextId = s.nextId + 1) :
      Effect s (.makeOperation k args err) s'
  | served {err : Int} {p : Pending} {call : LcbCall} {cookie : Cookie} {s' : Impl}
      (hf : s.front = some p) (hw : s.waiting = p :: s'.waiting) (hck : p.cmd.cookie = some cookie)
      (hlog : s'.log = s.log ++ Event.ofResult p.id call err cookie p.cmd.getKeyList)
      (hn : s'.nextId = s.nextId) : Effect s (.drain err) s'
  | dropped {err g : Int} {p : Pending} {cookie : Cookie} {s' : Impl} (hg : g ≠ LCB_SUCCESS)
      (hf : s.front = some p) (hw : s.waiting = p :: s'.waiting) (hck : p.cmd.cookie = some cookie)
      (hlog : s'.log = s.log ++ [.cancelled p.id g (cookie.cancel g p.cmd.getKeyList)])
      (hn : s'.nextId = s.nextId) : Effect s (.drain err) s'

section Effects

variable {s s' : Impl} {a : Action}

omit [Runtime] in
theorem waiting_of_no_pop (h : s.control.any Frame.isPop = false) :
    s.waiting = s.pendingCommands := by
  unfold waiting
  rw [h]
  rfl

omit [Runtime] in
theorem waiting_of_pop (h : s.control.any Frame.isPop = true) :
    s.waiting = s.pendingCommands.tail := by
  unfold waiting
  rw [h]
  rfl

omit [Runtime] in
/-- The stack and the queue decide who is waiting. -/
theorem waiting_congr (hc : s'.control.any Frame.isPop = s.control.any Frame.isPop)
    (hp : s'.pendingCommands = s.pendingCommands) : s'.waiting = s.waiting := by
  unfold waiting
  rw [hc, hp]

omit [Runtime] in
theorem front_drain {g : Int} {rest : List Frame} {p : Pending} {ps : List Pending}
    (hc : s.control = .drain g :: rest) (hp : s.pendingCommands = p :: ps) :
    s.front = some p := by
  unfold front
  rw [hc, hp]
  rfl

omit [Runtime] in
/-- In the loop, every pending command waits. -/
theorem Stack.waiting_drain {g : Int} {rest : List Frame} (hst : Stack s)
    (hc : s.control = .drain g :: rest) : s.waiting = s.pendingCommands := by
  have hrest := hst.below hc rfl
  apply waiting_of_no_pop
  simp [hc, Frame.isPop, hrest]

omit [Runtime] in
/-- The front stays in `pendingCommands` until its cancellation is over, and waits no more. -/
theorem waiting_cancelled {g : Int} {rest : List Frame} {p : Pending} {ps : List Pending}
    (hc : s.control = .user :: .popFront g :: rest) (hp : s.pendingCommands = p :: ps) :
    s.waiting = ps := by
  rw [waiting_of_pop (by simp [hc, Frame.isPop]), hp]
  rfl

/-- Nothing that matters to the queue happens. -/
theorem Effect.quiet (hlog : s'.log = s.log)
    (hc : s'.control.any Frame.isPop = s.control.any Frame.isPop)
    (hp : s'.pendingCommands = s.pendingCommands) (hn : s'.nextId = s.nextId) : Effect s a s' := by
  have hnone : s'.log = s.log ++ [] := by rw [hlog, List.append_nil]
  refine .silent hnone ?_ (waiting_congr hc hp) hn
  intro e he
  cases he

/-- **The machine simulates a queue.** -/
theorem moves_effect (hs : Sound s) (hst : Stack s) (hm : Moves s a s') : Effect s a s' := by
  have silent {e : Event} {t : Impl} (he : e.request = none) (hlog : t.log = s.log ++ [e])
      (hw : t.waiting = s.waiting) (hn : t.nextId = s.nextId) : Effect s a t := by
    refine .silent hlog ?_ hw hn
    intro e' he'
    rw [List.mem_singleton.mp he']
    exact he
  cases hm with
  | reject hjs hacc hr => exact silent rfl rfl (waiting_congr rfl rfl) rfl
  | queue hjs hacc hc =>
    have hpop := hst.undecided hc
    refine .joined hacc hc rfl ?_ rfl
    rw [waiting_of_no_pop hpop]
    exact waiting_of_no_pop hpop
  | execute hjs hacc hc hcall => exact .passed hacc hc rfl (waiting_congr rfl rfl) rfl
  | shutdown | shutdownAgain | configIgnored | idleFired => exact .quiet rfl rfl rfl rfl
  | configured hjs ha hc =>
    refine silent rfl rfl (waiting_congr ?_ rfl) rfl
    simp [Frame.isPop]
  | failed hjs ha hc =>
    refine silent rfl rfl (waiting_congr ?_ rfl) rfl
    simp [Frame.isPop]
  | error =>
    refine .quiet rfl ?_ rfl rfl
    simp [Frame.isPop]
  | ret hc | drained hc =>
    refine .quiet rfl ?_ rfl rfl
    simp [hc, Frame.isPop]
  | @scheduled g rest p ps call hc hp hg hcall =>
    -- the command has gone from the queue already, and nothing is left to pop
    obtain ⟨cookie, hck⟩ := Option.isSome_iff_exists.mp (hs.cookie p (hp ▸ List.mem_cons_self ..))
    have hlog : s.log ++ [.executed p.id call LCB_SUCCESS] =
        s.log ++ Event.ofResult p.id call LCB_SUCCESS cookie p.cmd.getKeyList := by
      simp [Event.ofResult]
    refine .served (front_drain hc hp) ?_ hck hlog rfl
    rw [hst.waiting_drain hc, hp]
    apply congrArg
    symm
    refine Stack.waiting_drain ?_ hc
    exact hst
  | scheduleFailed hc hp hg he hcall hck =>
    refine .served (front_drain hc hp) ?_ hck rfl rfl
    rw [hst.waiting_drain hc, hp]
    apply congrArg
    symm
    exact waiting_cancelled rfl rfl
  | globalError hc hp hg hck =>
    refine .dropped hg (front_drain hc hp) ?_ hck rfl rfl
    rw [hst.waiting_drain hc, hp]
    apply congrArg
    symm
    exact waiting_cancelled rfl rfl
  | @popFront err g rest hc =>
    -- the head was not waiting any more: it was cancelled, and only the entry goes
    have hrest := hst.below hc rfl
    refine .silent (popCommand_log.trans (List.append_nil _).symm) (by simp) ?_ popCommand_nextId
    rw [waiting_of_pop (s := s) (by simp [hc, Frame.isPop])]
    refine (waiting_of_no_pop ?_).trans popCommand_pendingCommands
    simp [Frame.isPop, hrest]

end Effects

/-! ## The queue is accounted for -/

/-- What holds of the queue in every reachable state: the requests accepted so far are numbered
    in that order, and the book accounts for those waiting. -/
structure Ledger (s : Impl) : Prop where
  sound : Sound s
  stack : Stack s
  numbers : s.book.joins = List.range s.nextId
  accounted : s.book.Accounted (s.waiting.map (·.id))

section Account

variable {s s' : Impl} {a : Action} {evs : List Event} {id : Nat} {call : LcbCall} {err : Int}
  {cookie : Cookie} {keys : List Value} {line : List Nat}

omit [Runtime] in
theorem book_append (hlog : s'.log = s.log ++ evs) :
    s'.book = s.book ++ evs.filterMap Event.entry := by
  unfold book
  rw [hlog, List.filterMap_append]

omit [Runtime] in
theorem book_silent (hlog : s'.log = s.log ++ evs) (hevs : ∀ e ∈ evs, e.request = none) :
    s'.book = s.book := by
  have hnone : evs.filterMap Event.entry = [] := by
    rw [List.filterMap_eq_nil_iff]
    intro e he
    have hr := hevs e he
    cases e with
    | connect | rejected => rfl
    | accepted | executed | cancelled => cases hr
  rw [book_append hlog, hnone, List.append_nil]

/-- The entries of a command handed to libcouchbase. -/
theorem entries_ofResult : (Event.ofResult id call err cookie keys).filterMap Event.entry =
    [.served id] ++ if err = LCB_SUCCESS then [] else [.dropped id] := by
  unfold Event.ofResult
  by_cases h : err = LCB_SUCCESS
  · simp only [h, if_true]
    rfl
  · simp only [if_neg h]
    rfl

/-- A command handed to libcouchbase accepts nothing. -/
theorem accepted_ofResult {i : Nat} {b : Bool} :
    .accepted i b ∉ Event.ofResult id call err cookie keys := by
  unfold Event.ofResult
  split <;> simp

/-- When it fails, its cookie is cancelled with its keys. -/
theorem cancelled_ofResult (herr : err ≠ LCB_SUCCESS) :
    .cancelled id err (cookie.cancel err keys) ∈ Event.ofResult id call err cookie keys := by
  unfold Event.ofResult
  rw [if_neg herr]
  exact List.mem_cons_of_mem _ (List.mem_singleton_self _)

omit [Runtime] in
theorem joins_result : Book.joins ([.served id] ++
    if err = LCB_SUCCESS then [] else [.dropped id]) = [] := by
  split <;> rfl

omit [Runtime] in
/-- A cancellation after the execution adds nothing. -/
theorem accounted_result {es : Book Nat} (h : Book.Accounted (es ++ [.served id]) line) :
    Book.Accounted (es ++ ([.served id] ++ if err = LCB_SUCCESS then [] else [.dropped id]))
      line := by
  rw [← List.append_assoc]
  split
  · rw [List.append_nil]
    exact h
  · refine h.leave_again rfl rfl ?_
    rw [Book.mem_leaves_append]
    exact .inr (List.mem_singleton_self id)

theorem Ledger.fresh (h : Ledger s) : s.nextId ∉ s.book.joins := by
  rw [h.numbers]
  simp

/-- **Every step keeps the account.** -/
theorem effect_account (h : Ledger s) (he : Effect s a s') :
    s'.book.joins = List.range s'.nextId ∧ s'.book.Accounted (s'.waiting.map (·.id)) := by
  cases he with
  | silent hlog hevs hw hn =>
    rw [book_silent hlog hevs, hw, hn]
    exact ⟨h.numbers, h.accounted⟩
  | joined hacc hc hlog hw hn =>
    rw [book_append hlog, hw, hn, List.map_append]
    refine ⟨?_, h.accounted.join h.fresh⟩
    rw [Book.joins_append, h.numbers, List.range_succ]
    rfl
  | passed hacc hc hlog hw hn =>
    have hbook := book_append hlog
    rw [List.filterMap_cons_some (by rfl), entries_ofResult, ← List.singleton_append,
      ← List.append_assoc] at hbook
    rw [hbook, hw, hn]
    refine ⟨?_, accounted_result (h.accounted.pass h.fresh)⟩
    rw [Book.joins_append, Book.joins_append, joins_result, h.numbers, List.range_succ,
      List.append_nil]
    rfl
  | served hf hw hck hlog hn =>
    have hacc := h.accounted
    rw [hw, List.map_cons] at hacc
    rw [book_append hlog, entries_ofResult, hn]
    refine ⟨?_, accounted_result (hacc.leave_head rfl rfl)⟩
    rw [Book.joins_append, joins_result, List.append_nil]
    exact h.numbers
  | dropped hg hf hw hck hlog hn =>
    have hacc := h.accounted
    rw [hw, List.map_cons] at hacc
    rw [book_append hlog, hn]
    refine ⟨?_, hacc.leave_head rfl rfl⟩
    rw [Book.joins_append, h.numbers]
    exact List.append_nil _

theorem step_effect (h : Ledger s) (hstep : Impl.step a s = some s') : Effect s a s' :=
  moves_effect h.sound h.stack (step_moves hstep)

theorem step_ledger (h : Ledger s) (hstep : Impl.step a s = some s') : Ledger s' := by
  obtain ⟨hn, ha⟩ := effect_account h (step_effect h hstep)
  have hm := step_moves hstep
  exact ⟨moves_sound h.sound hm, moves_stack h.stack hm, hn, ha⟩

theorem ledger_start : Ledger {} where
  sound := run_sound (show Impl.run [] = some {} from rfl)
  stack := Nat.zero_le _
  numbers := rfl
  accounted := Book.Accounted.empty

/-- **In every reachable state the queue is accounted for.** -/
theorem run_ledger {as : List Action} (h : Impl.run as = some s) : Ledger s :=
  Run.exec_inv_all (fun _ _ _ hl hstep => step_ledger hl hstep) ledger_start h

end Account

end Proof

end Couchnode
