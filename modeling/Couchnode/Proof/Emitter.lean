import Couchnode.Lib.Refine
import Couchnode.Native.Emitter
import Couchnode.Proof.Machine
import Couchnode.V8.Runtime

/-!
# The handlers and the connection

`emitter_refines`: with its handlers, the connection is still the machine of `Impl`, which lets a
handler run and return at once where none was registered. Every invariant of `Impl` is therefore
one of the connection with its handlers. What becomes of the handlers can be read off the actions:
`registered` is the handler of an event after some actions, and `connectRaised` what the `connect`
handler is told of a run. `errors_raised` accounts for what the `error` handler is told.
-/

set_option autoImplicit false

namespace Couchnode

/-- A suspended `errorCallback` is application code about to run. -/
def EventFrame.toFrame : EventFrame → Frame
  | .native f => f
  | .raise _ _ => .user

/-- The connection without its handlers. -/
def Emitter.toImpl (s : Emitter) : Impl := { s.impl with control := s.control.map (·.toFrame) }

/-- The action of the connection an action is, if it is one. -/
def EmitterAction.toAction : EmitterAction → Option Action
  | .makeOperation k args err => some (.makeOperation k args err)
  | .shutdown => some .shutdown
  | .onConfig isNew => some (.onConfig isNew)
  | .errorCallback err _ => some (.errorCallback err)
  | .shutdownCb => some .shutdownCb
  | .drain err => some (.drain err)
  | .on _ | .raise | .ret => none

/-- Everything but the return of a handler. -/
def Action.visible : Action → Option Action
  | .ret => none
  | a => some a

namespace Proof

open Emitter

section Control

variable [Runtime] {s : Impl} {c rest : List Frame}

/-- A request looks at no frame. -/
theorem makeOperation_control (k : Kind) (args : List Value) (err : Int) :
    { s with control := c }.makeOperation k args err =
      (s.makeOperation k args err).map fun s' => { s' with control := c } := by
  unfold Impl.makeOperation
  cases Command.accept k.cls args (Command.start s.heap) with
  | fault => rfl
  | refused st =>
    simp only
    cases bailOut args st.err <;> rfl
  | done hd st =>
    simp only [Impl.submit]
    split
    · rfl
    · cases Command.execute k.cls st.heap _ <;> rfl

/-- What native code does does not depend on the frames below its own. -/
theorem drain_control (f : Frame) (err : Int) :
    { s with control := f :: rest }.drain err =
      ({ s with control := [f] }.drain err).map fun s' : Impl =>
        { s' with control := s'.control ++ rest } := by
  obtain ⟨_, _, _, _, pendingCommands, _, heap, _, _⟩ := s
  cases f with
  | user => rfl
  | popFront g => cases pendingCommands <;> rfl
  | drain g =>
    cases pendingCommands with
    | nil => rfl
    | cons p ps =>
      simp only [Impl.drain, Impl.drainStep, Impl.runFront]
      -- the global error or that of the command, and then whether it is one
      cases (if g = LCB_SUCCESS then
        (p.cmd.execute p.kind.cls heap).map fun call => ([Event.executed p.id call err], err)
        else some ([], g) : Option (List Event × Int)) with
      | none => rfl
      | some r =>
        obtain ⟨evs, e⟩ := r
        simp only [Option.bind_eq_bind, Option.bind_some]
        by_cases he : e = LCB_SUCCESS
        · simp only [if_pos he, Impl.popCommand, Option.map_some]
          rfl
        · simp only [if_neg he]
          cases p.cmd.cookie <;> rfl

omit [Runtime] in
theorem shutdown_control : { s with control := c }.shutdown = { s.shutdown with control := c } := by
  obtain ⟨_, isShutdown, _, _, _, _, _, _, _⟩ := s
  cases isShutdown <;> rfl

end Control

/-! ## Refinement -/

section Refinement

variable [Runtime] {s s' : Emitter}

omit [Runtime] in
theorem jsRuns_toImpl (h : s.jsRuns = true) : s.toImpl.jsRuns = true := by
  obtain ⟨impl, control, events, raised⟩ := s
  match control, h with
  | [], _ => rfl
  | .native .user :: _, _ => rfl

/-- What `Impl` does for a frame of application code on top: nothing, or it lets it return. -/
def CatchesUp (t : Impl) (s : Emitter) : Prop :=
  ∃ bs, Run.exec Impl.step t bs = some s.toImpl ∧ bs.filterMap Action.visible = []

omit [Runtime] in
theorem CatchesUp.at_once [Runtime] {t : Impl} (h : t = s.toImpl) : CatchesUp t s :=
  ⟨[], congrArg some h, rfl⟩

/-- A handler that is not there returns at once. -/
theorem call_catchesUp (event : List UInt8) (arg : Value) :
    CatchesUp { s.toImpl with control := .user :: s.toImpl.control } (s.call event arg) := by
  unfold Emitter.call
  cases s.events.lookup event with
  | some fn => exact .at_once rfl
  | none => exact ⟨[.ret], rfl, rfl⟩

/-- An action of the connection, and then what `Impl` has to catch up on. -/
theorem CatchesUp.after {b : Action} {t t' : Impl} (hb : Impl.step b t = some t')
    (hv : b.visible = some b) (h : CatchesUp t' s) :
    ∃ bs, Run.exec Impl.step t bs = some s.toImpl ∧ bs.filterMap Action.visible = [b] := by
  obtain ⟨bs, hbs, hnone⟩ := h
  refine ⟨b :: bs, Run.exec_cons.mpr ⟨t', hb, hbs⟩, ?_⟩
  rw [List.filterMap_cons_some hv, hnone]

theorem onConnect_catchesUp (err : Int) (s : Emitter) :
    CatchesUp (s.toImpl.onConnect err) (s.onConnect err) := by
  have hcall := call_catchesUp (s := { s with
    impl := { s.impl with connected := true, log := s.impl.log ++ [.connect (errorObject err)] } })
    connectName (errorObject err)
  exact hcall

theorem onConfig_catchesUp (isNew : Bool) :
    CatchesUp (s.toImpl.onConfig isNew) (s.onConfig isNew) := by
  unfold Emitter.onConfig Impl.onConfig
  by_cases hc : s.impl.connected = true
  · rw [if_pos hc, if_pos (show s.toImpl.connected = true from hc)]
    exact .at_once rfl
  rw [if_neg hc, if_neg (show ¬ s.toImpl.connected = true from hc)]
  by_cases hn : (!isNew) = true
  · rw [if_pos hn, if_pos hn]
    exact .at_once rfl
  rw [if_neg hn, if_neg hn]
  exact onConnect_catchesUp _ { s with control := .native (.drain _) :: s.control }

theorem errorCallback_catchesUp (err : Int) (errinfo : Option String) :
    CatchesUp (s.toImpl.errorCallback err) (s.errorCallback err errinfo) := by
  unfold Emitter.errorCallback Impl.errorCallback
  by_cases hc : s.impl.connected = true
  · rw [if_pos (show s.toImpl.connected = true from hc)]
    simp only [if_pos hc]
    exact .at_once rfl
  rw [if_neg (show ¬ s.toImpl.connected = true from hc)]
  simp only [if_neg hc]
  exact onConnect_catchesUp _ { s with control := .raise _ _ :: s.control }

variable [EventNames]

/-- **One step of the connection with its handlers**, as steps of `Impl`. -/
theorem step_refines (a : EmitterAction) (h : s.step a = some s') :
    ∃ bs, Run.exec Impl.step s.toImpl bs = some s'.toImpl ∧
      bs.filterMap Action.visible = a.toAction.toList := by
  cases a with
  | on args =>
    simp only [Emitter.step] at h
    split at h
    · refine CatchesUp.at_once ?_
      split at h <;> cases h <;> rfl
    · cases h
  | makeOperation k args err =>
    simp only [Emitter.step] at h
    split at h
    · next hjs =>
      obtain ⟨impl, himpl, rfl⟩ := Option.map_eq_some_iff.mp h
      refine (CatchesUp.at_once rfl).after ?_ rfl
      simp only [Impl.step, if_pos (jsRuns_toImpl hjs)]
      rw [Emitter.toImpl, makeOperation_control, himpl]
      rfl
    · cases h
  | shutdown =>
    simp only [Emitter.step] at h
    split at h
    · next hjs =>
      cases h
      refine (CatchesUp.at_once rfl).after ?_ rfl
      simp only [Impl.step, if_pos (jsRuns_toImpl hjs)]
      rw [Emitter.toImpl, shutdown_control]
      rfl
    · cases h
  | onConfig isNew =>
    simp only [Emitter.step] at h
    split at h
    · next hjs =>
      cases h
      obtain ⟨hjs, hconf⟩ := Bool.and_eq_true_iff.mp hjs
      obtain ⟨hjs, halive⟩ := Bool.and_eq_true_iff.mp hjs
      have hstep : Impl.step (.onConfig isNew) s.toImpl = some (s.toImpl.onConfig isNew) := by
        simp only [Impl.step]
        exact if_pos (Bool.and_eq_true_iff.mpr
          ⟨Bool.and_eq_true_iff.mpr ⟨jsRuns_toImpl hjs, halive⟩, hconf⟩)
      exact (onConfig_catchesUp isNew).after hstep rfl
    · cases h
  | errorCallback err errinfo =>
    simp only [Emitter.step] at h
    split at h
    · next hjs =>
      cases h
      obtain ⟨hjs, halive⟩ := Bool.and_eq_true_iff.mp hjs
      have hstep : Impl.step (.errorCallback err) s.toImpl = some (s.toImpl.errorCallback err) := by
        simp only [Impl.step]
        exact if_pos (Bool.and_eq_true_iff.mpr ⟨jsRuns_toImpl hjs, halive⟩)
      exact (errorCallback_catchesUp err errinfo).after hstep rfl
    · cases h
  | shutdownCb =>
    simp only [Emitter.step] at h
    split at h
    · next hc =>
      cases h
      refine (CatchesUp.at_once rfl).after ?_ rfl
      obtain ⟨hcontrol, hidle⟩ := Bool.and_eq_true_iff.mp hc
      have hnil : s.toImpl.control = [] := by
        simp only [Emitter.toImpl, of_decide_eq_true hcontrol, List.map_nil]
      exact if_pos (Bool.and_eq_true_iff.mpr ⟨decide_eq_true hnil, hidle⟩)
    · cases h
  | drain err =>
    simp only [Emitter.step, Emitter.drain] at h
    split at h
    · next f rest hcontrol =>
      obtain ⟨impl, himpl, rfl⟩ := Option.map_eq_some_iff.mp h
      refine (CatchesUp.at_once rfl).after ?_ rfl
      simp only [Impl.step]
      rw [Emitter.toImpl, hcontrol, List.map_cons]
      refine (drain_control f err).trans ?_
      rw [himpl]
      simp only [Option.map_some, Emitter.toImpl, List.map_append, List.map_map]
      rw [show (EventFrame.toFrame ∘ EventFrame.native) = id from rfl, List.map_id]
    · cases h
  | raise =>
    simp only [Emitter.step] at h
    split at h
    · next err errinfo rest hcontrol =>
      cases h
      have himpl : s.toImpl =
          { ({ s with control := rest } : Emitter).toImpl with
            control := .user :: rest.map (·.toFrame) } := by
        rw [Emitter.toImpl, hcontrol]
        rfl
      rw [himpl]
      exact call_catchesUp _ _
    · cases h
  | ret =>
    simp only [Emitter.step] at h
    split at h
    · next rest hcontrol =>
      cases h
      refine ⟨[.ret], ?_, rfl⟩
      simp only [Run.exec, Impl.step, Emitter.toImpl, hcontrol, List.map_cons]
      rfl
    · cases h

/-- **With its handlers, the connection is still the machine of `Impl`**: every run is one of
    `Impl` with the same requests, events and drained commands in the same order, in which handlers
    return at times of their own, and it ends in the same state. -/
theorem emitter_refines {as : List EmitterAction} (h : Emitter.run as = some s) :
    ∃ bs, Impl.run bs = some s.toImpl ∧
      bs.filterMap Action.visible = as.filterMap EmitterAction.toAction := by
  have hstep : ∀ (a : EmitterAction) (s s' : Emitter) (t : Impl), t = s.toImpl →
      s.step a = some s' → ∃ bs t', Run.exec Impl.step t bs = some t' ∧ t' = s'.toImpl ∧
        bs.filterMap Action.visible = a.toAction.toList := by
    rintro a s s' t rfl hs
    obtain ⟨bs, hbs, hview⟩ := step_refines a hs
    exact ⟨bs, s'.toImpl, hbs, rfl, hview⟩
  obtain ⟨bs, t, hbs, rfl, hview⟩ := Run.exec_refines hstep rfl h
  exact ⟨bs, hbs, hview⟩

end Refinement

end Proof

section Example

namespace SmallRuntime

scoped instance eventNames : EventNames where
  asciiValue
    | .string s => utf8 s
    | _ => []

end SmallRuntime

open scoped SmallRuntime

/-- The connection fails before it is there. The `connect` handler takes an `error` handler along,
    which hears of the same error. -/
def failing : List EmitterAction :=
  [.on [.string "connect", .function 1], .on [.string "error", .function 2],
    .makeOperation .get [.array [.string "a"], .undefined, .function 3] 0,
    .errorCallback 5 (some "refused"), .on [.string "error", .function 4], .ret, .raise, .ret]

theorem Proof.emitter_refines_failing : ∃ s bs, Emitter.run failing = some s ∧
    s.toImpl.nextId = 1 ∧ Impl.run bs = some s.toImpl := by
  obtain ⟨s, hs, htest⟩ := (Option.any_eq_true _ _).mp
    (show (Emitter.run failing).any (fun s => s.toImpl.nextId = 1) = true by decide +kernel)
  obtain ⟨bs, hbs, _⟩ := Proof.emitter_refines hs
  exact ⟨s, bs, hs, of_decide_eq_true htest, hbs⟩

end Example

end Couchnode
