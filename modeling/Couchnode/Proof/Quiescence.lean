import Couchnode.Proof.Crashes
import Couchnode.Proof.Settled

/-!
# The connection comes to rest

While native code is suspended the event loop stands still, so the loop of `runScheduledOperations`
had better end. It does, whatever libcouchbase answers, once the handlers it is suspended under
return: `proceed` is one step of native code or the return of a handler, `toDo` bounds how many of
them are left, and `comes_to_rest` says what is there afterwards. If the loop was running, the queue
is empty and everything accepted so far was executed or cancelled.

The bound is on the commands that wait, not on `pendingCommands`: the front command is still there
while it is being cancelled.
-/

set_option autoImplicit false

namespace Couchnode

/-- The steps a frame takes when nothing waits. -/
def Frame.steps : Frame → Nat
  | .user => 1
  | .drain _ => 1
  | .popFront _ => 2

namespace Impl

/-- The most steps that are left until the event loop runs again. -/
def toDo (s : Impl) : Nat := 3 * s.waiting.length + (s.control.map Frame.steps).sum

/-- Native code goes on, or the handler it is suspended under returns. -/
def proceed [Runtime] (err : Int) (s : Impl) : Option Impl :=
  match s.control with
  | .user :: _ => step .ret s
  | _ => step (.drain err) s

end Impl

namespace Proof

open Impl

variable [Runtime] {s s' : Impl}

/-- A step of the connection, one of two. -/
theorem proceed_step {err : Int} (h : s.proceed err = some s') :
    Moves s .ret s' ∨ Moves s (.drain err) s' := by
  unfold proceed at h
  split at h
  · exact .inl (step_moves h)
  · exact .inr (step_moves h)

/-- What the connection keeps on the way. -/
structure Tended (s : Impl) : Prop where
  ledger : Ledger s
  histories : Histories s

theorem tended_of_run {as : List Action} (h : Impl.run as = some s) : Tended s :=
  ⟨run_ledger h, run_histories h⟩

theorem Tended.proceed {err : Int} (hs : Tended s) (h : s.proceed err = some s') : Tended s' := by
  have hstep : ∃ a, Impl.step a s = some s' := by
    unfold Impl.proceed at h
    split at h
    · exact ⟨_, h⟩
    · exact ⟨_, h⟩
  obtain ⟨a, ha⟩ := hstep
  have heffect := step_effect hs.ledger ha
  exact ⟨step_ledger hs.ledger ha, effect_histories hs.ledger hs.histories heffect⟩

/-- Away from the event loop there is a step to take. -/
theorem proceed_advances (hs : Tended s) (hc : s.control ≠ []) (err : Int) :
    ∃ s', s.proceed err = some s' := by
  unfold Impl.proceed
  obtain ⟨f, rest, hf⟩ := List.exists_cons_of_ne_nil hc
  rw [hf]
  cases f with
  | user =>
    refine ⟨{ s with control := rest }, ?_⟩
    show Impl.step .ret s = _
    unfold Impl.step
    rw [hf]
  | drain | popFront =>
    apply drain_advances hs.ledger.sound
    unfold Impl.jsRuns
    rw [hf]

omit [Runtime] in
theorem toDo_cons {f : Frame} {rest : List Frame} (hc : s.control = f :: rest) :
    s.toDo = 3 * s.waiting.length + f.steps + (rest.map Frame.steps).sum := by
  unfold Impl.toDo
  rw [hc, List.map_cons, List.sum_cons, Nat.add_assoc]

omit [Runtime] in
/-- A step that takes a frame away and leaves the queue alone. -/
theorem toDo_pop {f : Frame} {rest : List Frame} (hc : s.control = f :: rest)
    (hf : f.isPop = false) (hp : s'.pendingCommands = s.pendingCommands) (hc' : s'.control = rest) :
    s'.toDo < s.toDo := by
  have hpop : s'.control.any Frame.isPop = s.control.any Frame.isPop := by
    rw [hc, hc', List.any_cons, hf, Bool.false_or]
  have hpos : 0 < f.steps := by
    cases f <;> exact Nat.succ_pos _
  rw [toDo_cons hc]
  unfold Impl.toDo
  rw [waiting_congr hpop hp, hc']
  omega

omit [Runtime] in
/-- The front command is taken up, and perhaps cancelled. -/
theorem toDo_front {g : Int} {rest : List Frame} {p : Pending} {ps : List Pending} (hst : Stack s)
    (hc : s.control = .drain g :: rest) (hp : s.pendingCommands = p :: ps) (hw : s'.waiting = ps)
    (hc' : s'.control = s.control ∨ s'.control = .user :: .popFront g :: rest) :
    s'.toDo < s.toDo := by
  have hlen : s.waiting.length = s'.waiting.length + 1 := by
    rw [hst.waiting_drain hc, hp, hw]
    rfl
  have hsteps : (s'.control.map Frame.steps).sum ≤ (s.control.map Frame.steps).sum + 2 := by
    rcases hc' with hc' | hc'
    · rw [hc']
      exact Nat.le_add_right ..
    · simp only [hc', hc, List.map_cons, List.sum_cons, Frame.steps]
      omega
  unfold Impl.toDo
  omega

/-- **Every step is one less to take.** -/
theorem moves_less {err : Int} (hst : Stack s) (hm : Moves s .ret s' ∨ Moves s (.drain err) s') :
    s'.toDo < s.toDo := by
  rcases hm with hm | hm
  · cases hm with
    | ret hc => exact toDo_pop hc rfl rfl rfl
  · cases hm with
    | drained hc hp => exact toDo_pop hc rfl rfl rfl
    | @scheduled g rest p ps call hc hp hg hcall =>
      refine toDo_front hst hc hp ?_ (.inl rfl)
      refine Stack.waiting_drain ?_ hc
      exact hst
    | scheduleFailed hc hp => exact toDo_front hst hc hp (waiting_cancelled rfl hp) (.inr rfl)
    | globalError hc hp => exact toDo_front hst hc hp (waiting_cancelled rfl hp) (.inr rfl)
    | @popFront err g rest hc =>
      have hrest := hst.below hc rfl
      have hw : Impl.waiting { popCommand s with control := .drain g :: rest } = s.waiting := by
        rw [waiting_of_pop (s := s) (by simp [hc, Frame.isPop])]
        refine (waiting_of_no_pop ?_).trans popCommand_pendingCommands
        simp [Frame.isPop, hrest]
      rw [toDo_cons hc, toDo_cons rfl, hw]
      show 3 * s.waiting.length + 1 + _ < 3 * s.waiting.length + 2 + _
      omega

/-- Nobody makes a request meanwhile. -/
theorem moves_numbers {err : Int} (hm : Moves s .ret s' ∨ Moves s (.drain err) s') :
    s'.nextId = s.nextId := by
  rcases hm with hm | hm
  · cases hm with
    | ret hc => rfl
  · cases hm with
    | popFront hc => exact popCommand_nextId
    | _ => rfl

/-- A loop that runs goes on until the queue is empty. -/
theorem moves_working {err : Int} (hm : Moves s .ret s' ∨ Moves s (.drain err) s')
    (hloop : s.control.any Frame.isNative = true) :
    s'.control.any Frame.isNative = true ∨ s'.pendingCommands = [] := by
  rcases hm with hm | hm
  · cases hm with
    | ret hc =>
      left
      simpa [hc, Frame.isNative] using hloop
  · cases hm with
    | drained hc hp => exact .inr hp
    | scheduled hc hp => exact .inl hloop
    | _ => exact .inl (by simp [Frame.isNative])

/-- Without one only handlers return. -/
theorem moves_idle {err : Int} (hm : Moves s .ret s' ∨ Moves s (.drain err) s')
    (hloop : s.control.any Frame.isNative = false) :
    s'.control.any Frame.isNative = false ∧ s'.pendingCommands = s.pendingCommands ∧
      s'.log = s.log := by
  rcases hm with hm | hm
  · cases hm with
    | ret hc =>
      refine ⟨?_, rfl, rfl⟩
      simpa [hc, Frame.isNative] using hloop
  · cases hm with
    | drained hc | scheduled hc | scheduleFailed hc | globalError hc | popFront hc =>
      simp [hc, Frame.isNative] at hloop

/-- Every request accepted so far was executed or cancelled, once. -/
def AllDisposed (s : Impl) : Prop :=
  ∀ id < s.nextId, ∃ b evs, s.history id = .accepted id b :: evs ∧ Disposed id evs

/-- What is there when the event loop runs again. -/
structure AtRest (s s' : Impl) : Prop where
  control : s'.control = []
  nextId : s'.nextId = s.nextId
  worked : s.control.any Frame.isNative = true → s'.pendingCommands = [] ∧ AllDisposed s'
  idle : s.control.any Frame.isNative = false →
    s'.pendingCommands = s.pendingCommands ∧ s'.log = s.log

/-- With nobody in the queue, and no loop, nothing is left undone. -/
theorem Tended.disposed (hs : Tended s) (hc : s.control = []) (hp : s.pendingCommands = []) :
    AllDisposed s := by
  intro id hid
  have hw : s.waiting = [] := by
    rw [waiting_of_no_pop (by rw [hc]; rfl), hp]
  exact hs.histories.gone id hid (by simp [hw])

/-- A step is at rest where the next one is. -/
theorem AtRest.step {s₁ : Impl} {err : Int} (hm : Moves s .ret s₁ ∨ Moves s (.drain err) s₁)
    (hrest : AtRest s₁ s') (hs' : Tended s') : AtRest s s' := by
  refine ⟨hrest.control, hrest.nextId.trans (moves_numbers hm), fun hloop => ?_, fun hloop => ?_⟩
  · have hp : s'.pendingCommands = [] := by
      rcases Bool.eq_false_or_eq_true (s₁.control.any Frame.isNative) with hl | hl
      · exact (hrest.worked hl).1
      · rcases moves_working hm hloop with hl' | hp
        · rw [hl] at hl'
          cases hl'
        · exact (hrest.idle hl).1.trans hp
    exact ⟨hp, hs'.disposed hrest.control hp⟩
  · obtain ⟨hl, hp, hlog⟩ := moves_idle hm hloop
    obtain ⟨hp', hlog'⟩ := hrest.idle hl
    exact ⟨hp'.trans hp, hlog'.trans hlog⟩

/-- From any state the invariants hold in. -/
theorem tended_rests (hs : Tended s) (answers : Nat → Int) :
    ∃ n s', n ≤ s.toDo ∧ Run.exec Impl.proceed s ((List.range n).map answers) = some s' ∧
      AtRest s s' ∧ Tended s' := by
  induction hn : s.toDo using Nat.strong_induction_on generalizing s answers with
  | _ m ih =>
    by_cases hc : s.control = []
    · refine ⟨0, s, Nat.zero_le _, rfl, ⟨hc, rfl, ?_, fun _ => ⟨rfl, rfl⟩⟩, hs⟩
      rw [hc]
      exact nofun
    · obtain ⟨s₁, h₁⟩ := proceed_advances hs hc (answers 0)
      have hm := proceed_step h₁
      have hless := moves_less hs.ledger.stack hm
      obtain ⟨n, s', hle, hrun, hrest, hs'⟩ :=
        ih s₁.toDo (hn ▸ hless) (hs.proceed h₁) (fun i => answers (i + 1)) rfl
      refine ⟨n + 1, s', by omega, ?_, hrest.step hm hs', hs'⟩
      rw [List.range_succ_eq_map, List.map_cons, List.map_map]
      exact Run.exec_cons.mpr ⟨s₁, h₁, hrun⟩

/-- **The connection comes to rest.** From every reachable state native code and the handlers it
    waits for are through after at most `toDo` steps, whatever libcouchbase answers. If the loop of
    `runScheduledOperations` was running, nothing is queued then and everything accepted was
    executed or cancelled, once; otherwise nothing happened but that the handlers returned. -/
theorem comes_to_rest {as : List Action} (h : Impl.run as = some s) (answers : Nat → Int) :
    ∃ n s', n ≤ s.toDo ∧ Run.exec Impl.proceed s ((List.range n).map answers) = some s' ∧
      AtRest s s' := by
  obtain ⟨n, s', hle, hrun, hrest, _⟩ := tended_rests (tended_of_run h) answers
  exact ⟨n, s', hle, hrun, hrest⟩

end Proof

section Example

open scoped SmallRuntime

/-- Two gets are queued, and the connection comes up. -/
def twoQueued : List Action :=
  [.makeOperation .get [.string "a", .undefined, .function 1] 0,
    .makeOperation .get [.string "b", .undefined, .function 1] 0, .onConfig true]

/-- libcouchbase refuses both, and they are cancelled. -/
theorem Proof.comes_to_rest_refused : ∃ s n s', Impl.run twoQueued = some s ∧ n ≤ 8 ∧
    Run.exec Impl.proceed s ((List.range n).map fun _ => 1) = some s' ∧
    s'.pendingCommands = [] ∧ Proof.AllDisposed s' := by
  obtain ⟨s, hs, htest⟩ := (Option.any_eq_true _ _).mp
    (show (Impl.run twoQueued).any
      (fun s => s.toDo = 8 && s.control.any Frame.isNative) = true by decide +kernel)
  obtain ⟨htoDo, hloop⟩ := Bool.and_eq_true_iff.mp htest
  obtain ⟨n, s', hle, hrun, hrest⟩ := Proof.comes_to_rest hs fun _ => 1
  obtain ⟨hp, hall⟩ := hrest.worked hloop
  exact ⟨s, n, s', hs, of_decide_eq_true htoDo ▸ hle, hrun, hp, hall⟩

end Example

end Couchnode
