import Couchnode.Proof.Ledger
import Couchnode.V8.Runtime

/-!
# The order operations reach libcouchbase in

Requests are served in the order they were accepted as long as none is accepted while it would
overtake another: the connection is marked connected, and the queue still holds commands that
were not handed over. The latch is set before the connect handler runs and before the loop of
`runScheduledOperations`, so the application can do just that from the connect handler, and from
the callbacks of commands that are cancelled while the queue is drained.

`served_in_order_iff` says that nothing else disturbs the order, over every run.
-/

set_option autoImplicit false

namespace Couchnode

namespace Proof

open Command Impl Fifo

variable [Runtime] {s s' : Impl} {a : Action} {as : List Action}

/-- A request is accepted, and executed, while others wait. -/
def Overtakes (a : Action) (s : Impl) : Prop :=
  match a with
  | .makeOperation k args _ =>
    s.connected = true ∧ s.waiting ≠ [] ∧ ∃ hd st, Accepts s k args hd st
  | _ => False

/-- Whoever overtakes is counted. -/
theorem overtakes_nextId (hm : Moves s a s') (ho : Overtakes a s) :
    s'.nextId = s.nextId + 1 := by
  cases hm with
  | reject hjs hacc hr =>
    obtain ⟨_, _, hd, st, hacc'⟩ := ho
    cases hacc.symm.trans hacc'
  | queue | execute => rfl
  | _ => exact absurd ho id

/-- **A step keeps the order unless it overtakes.** -/
theorem step_inOrder (h : Ledger s) (hstep : Impl.step a s = some s') :
    s'.book.InOrder ↔ s.book.InOrder ∧ ¬ Overtakes a s := by
  have he := step_effect h hstep
  cases he with
  | silent hlog hevs hw hn =>
    rw [book_silent hlog hevs]
    -- who overtakes is accepted, and takes an id
    have hno : ¬ Overtakes a s := by
      intro ho
      have := overtakes_nextId (step_moves hstep) ho
      omega
    exact (and_iff_left hno).symm
  | @joined k args err hd st _ hacc hc hlog hw hn =>
    have hno : ¬ Overtakes (.makeOperation k args err) s := by
      rintro ⟨hconn, _⟩
      rw [hc] at hconn
      cases hconn
    rw [book_append hlog]
    constructor
    · intro ho
      exact ⟨ho.of_prefix, hno⟩
    · rintro ⟨ho, _⟩
      exact ho.join h.accounted h.fresh
  | @passed k args err hd st call _ hacc hc hlog hw hn =>
    have hbook := book_append hlog
    rw [List.filterMap_cons_some (by rfl), entries_ofResult, ← List.singleton_append,
      ← List.append_assoc] at hbook
    have hpass := Book.inOrder_pass h.accounted h.fresh
    rw [List.map_eq_nil_iff] at hpass
    -- a command executed at once overtakes whatever waits
    have hover : Overtakes (.makeOperation k args err) s ↔ s.waiting ≠ [] := by
      constructor
      · exact fun ho => ho.2.1
      · exact fun hw => ⟨hc, hw, hd, st, hacc⟩
    rw [hover, not_not, hbook, ← List.append_assoc, ← hpass]
    constructor
    · exact Book.InOrder.of_prefix
    · intro ho
      split
      · rw [List.append_nil]
        exact ho
      · exact ho.drop
  | served hf hw hck hlog hn =>
    have hacc := h.accounted
    rw [hw, List.map_cons] at hacc
    rw [book_append hlog, entries_ofResult, ← List.append_assoc]
    constructor
    · intro ho
      exact ⟨ho.of_prefix.of_prefix, id⟩
    · rintro ⟨ho, _⟩
      have hserved := ho.serve_head hacc
      split
      · rw [List.append_nil]
        exact hserved
      · exact hserved.drop
  | dropped hg hf hw hck hlog hn =>
    rw [book_append hlog]
    constructor
    · intro ho
      exact ⟨ho.of_prefix, id⟩
    · rintro ⟨ho, _⟩
      exact ho.drop

/-- **When operations are executed in the order they were accepted.** In the book of a run,
    every command handed to libcouchbase finds all commands accepted before it already handed
    over or cancelled, if and only if no step of the run overtakes. -/
theorem served_in_order_iff (h : Impl.run as = some s) :
    s.book.InOrder ↔ Run.Along Impl.step (fun a s => ¬ Overtakes a s) {} as := by
  rw [Run.exec_iff_along (fun _ _ _ hl hstep => step_ledger hl hstep)
    (fun _ _ _ hl hstep => step_inOrder hl hstep) ledger_start h]
  exact and_iff_right Book.InOrder.empty

end Proof

section Example

open scoped SmallRuntime

/-- A get that is queued. -/
def queuedGet : List Action :=
  [.makeOperation .get [.string "a", .undefined, .function 1] 0]

/-- Then the connection comes up, and the connect handler issues another one. -/
def overtakingGet : List Action :=
  queuedGet ++ [.onConfig true, .makeOperation .get [.string "b", .undefined, .function 1] 0]

/-- Two gets are queued and handed over once the connect handler has returned; a third one is sent at
    once. -/
def drainedGets : List Action :=
  queuedGet ++ [.makeOperation .get [.string "b", .undefined, .function 1] 0, .onConfig true, .ret,
    .drain 0, .drain 0, .drain 0, .makeOperation .get [.string "c", .undefined, .function 1] 0]

/-- Nobody is overtaken: the third one finds an empty queue. -/
theorem Proof.served_in_order_iff_get :
    ∃ s, Impl.run drainedGets = some s ∧
      s.book = [.joined 0, .joined 1, .served 0, .served 1, .joined 2, .served 2] ∧
      s.book.InOrder := by
  obtain ⟨s, hs, hbook⟩ := (Option.any_eq_true _ _).mp
    (show (Impl.run drainedGets).any (fun s => s.book =
      [.joined 0, .joined 1, .served 0, .served 1, .joined 2, .served 2]) = true by decide +kernel)
  let alone (a : Action) (s : Impl) : Bool :=
    match a with
    | .makeOperation _ _ _ => !s.connected || s.waiting.isEmpty
    | _ => true
  have halone (a : Action) (s : Impl) (h : alone a s = true) : ¬ Proof.Overtakes a s := by
    cases a with
    | makeOperation k args err =>
      rintro ⟨hconn, hwaiting, _⟩
      have hfree : (!s.connected || s.waiting.isEmpty) = true := h
      rw [hconn, Bool.not_true, Bool.false_or, List.isEmpty_iff] at hfree
      exact hwaiting hfree
    | _ => exact id
  have hrun : Run.Along Impl.step (fun a s => ¬ Proof.Overtakes a s) {} drainedGets :=
    Run.along_of_test alone halone (by decide +kernel)
  exact ⟨s, hs, of_decide_eq_true hbook, (Proof.served_in_order_iff hs).mpr hrun⟩

/-- The second request is executed before the first. -/
theorem Proof.served_in_order_overtaken :
    ∃ s, Impl.run overtakingGet = some s ∧ ¬ s.book.InOrder := by
  obtain ⟨s, hs, hbook⟩ := (Option.any_eq_true _ _).mp
    (show (Impl.run overtakingGet).any
      (fun s => s.book = [.joined 0, .joined 1, .served 1]) = true by decide +kernel)
  refine ⟨s, hs, fun ho => ?_⟩
  rw [of_decide_eq_true hbook] at ho
  have hgone := ho [.joined 0, .joined 1] 1 [] rfl 0 (List.Sublist.refl _)
  cases hgone

end Example

end Couchnode
