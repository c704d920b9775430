import Couchnode.Proof.Emitter
import Couchnode.Proof.Ledger

/-!
# What the handlers are told

Read off the actions alone: `registered` is the handler of an event after some actions, and
`connectRaised` what the `connect` handler is told of a whole run: nothing before the connection is
decided, and once, of the first decision, afterwards. `Heard` is the invariant that the state of
the emitter says the same; it also accounts for every call of `errorCallback`.
-/

set_option autoImplicit false

namespace Couchnode

namespace EmitterAction

/-- The handler an action registers for an event. -/
def registers [EventNames] (event : List UInt8) : EmitterAction → Option Value
  | .on [cbName, cbTarget] =>
    if EventNames.asciiValue cbName = event && cbTarget.isFunction then some cbTarget else none
  | _ => none

/-- The result with which an action decides a connection that is undecided. -/
def decides : EmitterAction → Option Int
  | .onConfig true => some LCB_SUCCESS
  | .errorCallback err _ => some err
  | _ => none

/-- The error an action reports. -/
def error : EmitterAction → Option (Int × Option String)
  | .errorCallback err errinfo => some (err, errinfo)
  | _ => none

end EmitterAction

/-- The error a frame still has to report. -/
def EventFrame.error : EventFrame → Option (Int × Option String)
  | .raise err errinfo => some (err, errinfo)
  | .native _ => none

namespace Emitter

/-- The handler of an event after some actions. -/
def registered [EventNames] (event : List UInt8) (as : List EmitterAction) : Option Value :=
  (as.filterMap (·.registers event)).getLast?

/-- What has been raised of an event. -/
def raisedOf (event : List UInt8) (s : Emitter) : List Raised :=
  s.raised.filter fun r => r.event = event

/-- The errors whose `error` handler has not been looked up yet. -/
def suspended (s : Emitter) : List (Int × Option String) := s.control.filterMap (·.error)

variable [Runtime] [EventNames]

/-- What is raised of `connect` in a run: the first decision, for the handler registered then. -/
def connectRaised (as : List EmitterAction) : List Raised :=
  (as.findSome? (·.decides)).toList.map fun err =>
    { event := connectName
      handler := registered connectName (as.takeWhile fun a => a.decides.isNone)
      arg := errorObject err }

end Emitter

namespace Proof

open Emitter

section Raising

variable {s s' : Emitter} {as : List EmitterAction} {a : EmitterAction} {event : List UInt8}

theorem connectName_ne : connectName ≠ [] := by decide +kernel

theorem errorName_ne : errorName ≠ [] := by decide +kernel

theorem connectName_ne_errorName : connectName ≠ errorName := by decide +kernel

theorem raisedOf_self {r : Raised} (hr : s'.raised = s.raised ++ [r]) (he : r.event = event) :
    Emitter.raisedOf event s' = Emitter.raisedOf event s ++ [r] := by
  unfold Emitter.raisedOf
  rw [hr, List.filter_append]
  simp [he]

theorem raisedOf_other {r : Raised} (hr : s'.raised = s.raised ++ [r]) (he : r.event ≠ event) :
    Emitter.raisedOf event s' = Emitter.raisedOf event s := by
  unfold Emitter.raisedOf
  rw [hr, List.filter_append, List.filter_cons_of_neg (by simpa using he), List.filter_nil,
    List.append_nil]

theorem raisedOf_same (hr : s'.raised = s.raised) :
    Emitter.raisedOf event s' = Emitter.raisedOf event s := by
  unfold Emitter.raisedOf
  rw [hr]

theorem decides_snoc :
    ((as ++ [a]).findSome? (·.decides)).isSome =
      ((as.findSome? (·.decides)).isSome || a.decides.isSome) := by
  rw [List.findSome?_append]
  cases as.findSome? (·.decides) <;> simp

theorem errors_snoc :
    (as ++ [a]).filterMap (·.error) = as.filterMap (·.error) ++ a.error.toList := by
  rw [List.filterMap_append]
  cases h : a.error <;> simp [h]

theorem lookup_on {name : List UInt8} {fn : Value} {events : List (List UInt8 × Value)} :
    ((name, fn) :: events.filter fun e => e.1 ≠ name).lookup event =
      if event = name then some fn else events.lookup event := by
  rw [List.lookup_cons]
  by_cases he : event = name
  · simp [he]
  · rw [if_neg he, beq_eq_false_iff_ne.mpr he]
    simp only
    rw [lawful_beq_subsingleton List.instBEq instBEqOfDecidableEq]
    exact Assoc.lookup_filter (p := fun k => k ≠ name) (decide_eq_true he) events

end Raising

section History

variable [EventNames] {event : List UInt8} {as : List EmitterAction} {a : EmitterAction}

/-- The last registration counts. -/
theorem registered_snoc :
    registered event (as ++ [a]) = (a.registers event).or (registered event as) := by
  unfold registered
  rw [List.filterMap_append, List.getLast?_append]
  cases h : a.registers event with
  | none => simp [h]
  | some fn => simp [h]

theorem registered_quiet (h : a.registers event = none) :
    registered event (as ++ [a]) = registered event as := by
  rw [registered_snoc, h, Option.none_or]

/-- What is known of the handlers that were called stays known. -/
theorem handlers_snoc {r : Raised}
    (h : ∃ as₁ as₂, as = as₁ ++ .raise :: as₂ ∧ r.handler = registered errorName as₁) :
    ∃ as₁ as₂, as ++ [a] = as₁ ++ .raise :: as₂ ∧ r.handler = registered errorName as₁ := by
  obtain ⟨as₁, as₂, rfl, hr⟩ := h
  exact ⟨as₁, as₂ ++ [a], by rw [List.append_assoc, List.cons_append], hr⟩

variable [Runtime]

/-- Once it is decided, nothing more is raised. -/
theorem connectRaised_decided (h : (as.findSome? (·.decides)).isSome = true) :
    connectRaised (as ++ [a]) = connectRaised as := by
  obtain ⟨err, herr⟩ := Option.isSome_iff_exists.mp h
  obtain ⟨l₁, b, l₂, rfl, hb, hnone⟩ := List.findSome?_eq_some_iff.mp herr
  -- neither the first decision nor what comes before it depends on the last action
  have hcut (l : List EmitterAction) :
      (l₁ ++ b :: l).takeWhile (fun a => a.decides.isNone) = l₁ := by
    rw [List.takeWhile_append_of_pos fun x hx => by rw [hnone x hx]; rfl,
      List.takeWhile_cons_of_neg (by rw [hb]; exact Bool.false_ne_true), List.append_nil]
  unfold connectRaised
  rw [List.findSome?_append, herr, Option.some_or, List.append_assoc, List.cons_append, hcut,
    hcut]

/-- Until it is decided, an action raises what it decides. -/
theorem connectRaised_undecided (h : (as.findSome? (·.decides)).isSome = false) :
    connectRaised (as ++ [a]) = a.decides.toList.map fun err =>
      { event := connectName, handler := registered connectName as, arg := errorObject err } := by
  have hnone : as.findSome? (·.decides) = none := Option.isNone_iff_eq_none.mp
    (Option.isSome_eq_false_iff.mp h)
  unfold connectRaised
  rw [List.findSome?_append, hnone, Option.none_or]
  cases hd : a.decides with
  | none => simp [hd]
  | some err =>
    rw [List.takeWhile_append_of_pos fun x hx => by
        rw [List.findSome?_eq_none_iff.mp hnone x hx]; rfl,
      List.takeWhile_cons_of_neg (by rw [hd]; exact Bool.false_ne_true), List.append_nil]
    simp [hd]

/-- An action that decides nothing, or comes too late. -/
theorem connectRaised_quiet (h : (as.findSome? (·.decides)).isSome = false → a.decides = none) :
    connectRaised (as ++ [a]) = connectRaised as := by
  cases hd : (as.findSome? (·.decides)).isSome with
  | true => exact connectRaised_decided hd
  | false =>
    have hnone : as.findSome? (·.decides) = none := Option.isNone_iff_eq_none.mp
      (Option.isSome_eq_false_iff.mp hd)
    rw [connectRaised_undecided hd, h hd, connectRaised, hnone]
    rfl

end History

/-! ## What a step does to the handlers -/

section Turns

variable [Runtime] [EventNames] {s s' : Emitter} {a : EmitterAction}

/-- What a step registers, decides, and raises. -/
inductive Turns (s s' : Emitter) : EmitterAction → Prop where
  | quiet {a : EmitterAction} (hreg : ∀ event, event ≠ [] → a.registers event = none)
      (hdec : s.impl.connected = false → a.decides = none) (herr : a.error = none)
      (hevents : s'.events = s.events) (hconn : s'.impl.connected = s.impl.connected)
      (hraised : s'.raised = s.raised) (hsus : s'.suspended = s.suspended) : Turns s s' a
  | on {cbName fn : Value} (hfn : fn.isFunction = true)
      (hevents : s'.events = (EventNames.asciiValue cbName, fn) ::
        s.events.filter fun e => e.1 ≠ EventNames.asciiValue cbName)
      (hconn : s'.impl.connected = s.impl.connected) (hraised : s'.raised = s.raised)
      (hsus : s'.suspended = s.suspended) : Turns s s' (.on [cbName, fn])
  | decide {a : EmitterAction} {err : Int} (hdec : a.decides = some err)
      (hreg : ∀ event, a.registers event = none) (hopen : s.impl.connected = false)
      (hevents : s'.events = s.events) (hconn : s'.impl.connected = true)
      (hraised : s'.raised = s.raised ++
        [{ event := connectName, handler := s.events.lookup connectName, arg := errorObject err }])
      (hsus : s'.suspended = a.error.toList ++ s.suspended) : Turns s s' a
  | error {err : Int} {errinfo : Option String} (hclosed : s.impl.connected = true)
      (hevents : s'.events = s.events) (hconn : s'.impl.connected = s.impl.connected)
      (hraised : s'.raised = s.raised) (hsus : s'.suspended = (err, errinfo) :: s.suspended) :
      Turns s s' (.errorCallback err errinfo)
  | raise {err : Int} {errinfo : Option String}
      (hevents : s'.events = s.events) (hconn : s'.impl.connected = s.impl.connected)
      (hraised : s'.raised = s.raised ++
        [{ event := errorName, handler := s.events.lookup errorName
           arg := errorInfo err errinfo }])
      (hsus : s.suspended = (err, errinfo) :: s'.suspended) : Turns s s' .raise

omit [Runtime] [EventNames] in
theorem suspended_call (event : List UInt8) (arg : Value) :
    (s.call event arg).suspended = s.suspended := by
  unfold Emitter.call Emitter.suspended
  cases s.events.lookup event <;> rfl

omit [Runtime] [EventNames] in
/-- Frames of native code suspend no error. -/
theorem suspended_native (fs : List Frame) (rest : List EventFrame) :
    (fs.map EventFrame.native ++ rest).filterMap (·.error) = rest.filterMap (·.error) := by
  rw [List.filterMap_append, List.filterMap_map]
  have hnone : fs.filterMap ((·.error) ∘ EventFrame.native) = [] :=
    List.filterMap_eq_nil_iff.mpr fun _ _ => rfl
  rw [hnone, List.nil_append]

omit [EventNames] in
/-- Only the first decision changes `connected`. -/
theorem makeOperation_connected {i i' : Impl} {k : Kind} {args : List Value} {err : Int}
    (h : i.makeOperation k args err = some i') : i'.connected = i.connected := by
  unfold Impl.makeOperation at h
  split at h
  · cases h
  · obtain ⟨_, _, h⟩ := Option.bind_eq_some_iff.mp h
    cases h
    rfl
  · unfold Impl.submit at h
    split at h
    · cases h
      rfl
    · obtain ⟨_, _, h⟩ := Option.bind_eq_some_iff.mp h
      cases h
      rfl

omit [EventNames] in
theorem drain_connected {i i' : Impl} {err : Int} (h : i.drain err = some i') :
    i'.connected = i.connected := by
  cases step_moves (a := .drain err) h with
  | drained | scheduled | scheduleFailed | globalError => rfl
  | popFront => exact popCommand_connected

/-- `on` registers its second argument under the characters of its first, or nothing. -/
theorem on_cases (args : List Value) (events : List (List UInt8 × Value)) :
    (∃ cbName fn, args = [cbName, fn] ∧ fn.isFunction = true ∧
      Emitter.on args events = .ok ((EventNames.asciiValue cbName, fn) ::
        events.filter fun e => e.1 ≠ EventNames.asciiValue cbName)) ∨
    ∃ e, Emitter.on args events = .error e ∧
      ∀ event, event ≠ [] → (EmitterAction.on args).registers event = none := by
  match args with
  | [cbName, fn] =>
    by_cases hname : (EventNames.asciiValue cbName).length = 0
    · refine .inr ⟨_, if_pos hname, fun event hne => if_neg fun hr => ?_⟩
      obtain ⟨hr, _⟩ := Bool.and_eq_true_iff.mp hr
      rw [of_decide_eq_true hr] at hname
      exact hne (List.length_eq_zero_iff.mp hname)
    cases hfn : fn.isFunction with
    | true =>
      refine .inl ⟨cbName, fn, rfl, hfn, ?_⟩
      simp only [Emitter.on, if_neg hname, hfn, Bool.not_true, Bool.false_eq_true, if_false]
    | false =>
      refine .inr ⟨CBExc.eArguments "Parameter is not a function" (some fn) {}, ?_, ?_⟩
      · simp only [Emitter.on, if_neg hname, hfn, Bool.not_false, if_true]
      · intro event _
        simp only [EmitterAction.registers, hfn, Bool.and_false, Bool.false_eq_true, if_false]
  | [] => exact .inr ⟨_, rfl, fun _ _ => rfl⟩
  | [_] => exact .inr ⟨_, rfl, fun _ _ => rfl⟩
  | _ :: _ :: _ :: _ => exact .inr ⟨_, rfl, fun _ _ => rfl⟩

theorem step_turns (h : s.step a = some s') : Turns s s' a := by
  -- an action that has to do with no handler
  have plain {a : EmitterAction} {impl : Impl} {control : List EventFrame}
      (hreg : ∀ event, a.registers event = none) (hdec : a.decides = none) (herr : a.error = none)
      (hconn : impl.connected = s.impl.connected)
      (hsus : control.filterMap (·.error) = s.suspended) :
      Turns s { s with impl := impl, control := control } a :=
    .quiet (fun event _ => hreg event) (fun _ => hdec) herr rfl hconn rfl hsus
  cases a with
  | on args =>
    simp only [Emitter.step] at h
    split at h
    · rcases on_cases args s.events with ⟨cbName, fn, rfl, hfn, hon⟩ | ⟨e, hon, hreg⟩
      · rw [hon] at h
        cases h
        exact .on hfn rfl rfl rfl rfl
      · rw [hon] at h
        cases h
        exact .quiet hreg (fun _ => rfl) rfl rfl rfl rfl rfl
    · cases h
  | makeOperation k args err =>
    simp only [Emitter.step] at h
    split at h
    · obtain ⟨impl, himpl, rfl⟩ := Option.map_eq_some_iff.mp h
      exact plain (fun _ => rfl) rfl rfl (makeOperation_connected himpl) rfl
    · cases h
  | shutdown =>
    simp only [Emitter.step] at h
    split at h
    · cases h
      refine plain (fun _ => rfl) rfl rfl ?_ rfl
      unfold Impl.shutdown
      split <;> rfl
    · cases h
  | onConfig isNew =>
    simp only [Emitter.step] at h
    split at h
    · cases h
      unfold Emitter.onConfig
      split
      · next hc =>
        exact .quiet (fun _ _ => rfl) (fun ho => by rw [ho] at hc; cases hc) rfl rfl rfl rfl rfl
      next hc =>
      cases isNew with
      | false => exact .quiet (fun _ _ => rfl) (fun _ => rfl) rfl rfl rfl rfl rfl
      | true =>
        exact .decide rfl (fun _ => rfl) (Bool.eq_false_iff.mpr hc) rfl rfl rfl (suspended_call _ _)
    · cases h
  | errorCallback err errinfo =>
    simp only [Emitter.step] at h
    split at h
    · cases h
      simp only [Emitter.errorCallback]
      split
      · next hc => exact .error hc rfl rfl rfl rfl
      · next hc =>
        exact .decide rfl (fun _ => rfl) (Bool.eq_false_iff.mpr hc) rfl rfl rfl (suspended_call _ _)
    · cases h
  | shutdownCb =>
    simp only [Emitter.step] at h
    split at h
    · cases h
      exact plain (fun _ => rfl) rfl rfl rfl rfl
    · cases h
  | drain err =>
    simp only [Emitter.step, Emitter.drain] at h
    split at h
    · next f rest hcontrol =>
      obtain ⟨impl, himpl, rfl⟩ := Option.map_eq_some_iff.mp h
      have hconn := drain_connected himpl
      refine plain (fun _ => rfl) rfl rfl hconn ?_
      rw [suspended_native, Emitter.suspended, hcontrol]
      rfl
    · cases h
  | raise =>
    simp only [Emitter.step] at h
    split at h
    · next err errinfo rest hcontrol =>
      cases h
      refine .raise rfl rfl rfl ?_
      rw [suspended_call, Emitter.suspended, hcontrol]
      rfl
    · cases h
  | ret =>
    simp only [Emitter.step] at h
    split at h
    · next rest hcontrol =>
      cases h
      refine plain (fun _ => rfl) rfl rfl rfl ?_
      rw [Emitter.suspended, hcontrol]
      rfl
    · cases h

end Turns

/-! ## Along a run -/

section Runs

variable [Runtime] [EventNames] {s s' : Emitter} {as : List EmitterAction} {a : EmitterAction}
  {event : List UInt8}

/-- The handlers and what they were told are what the actions say. -/
structure Heard (as : List EmitterAction) (s : Emitter) : Prop where
  events : ∀ event, event ≠ [] → s.events.lookup event = registered event as
  decided : s.impl.connected = (as.findSome? (·.decides)).isSome
  connect : Emitter.raisedOf connectName s = connectRaised as
  errors : ((Emitter.raisedOf errorName s).map (·.arg) ++
    s.suspended.map fun e => errorInfo e.1 e.2).Perm
      ((as.filterMap (·.error)).map fun e => errorInfo e.1 e.2)
  handlers : ∀ r ∈ Emitter.raisedOf errorName s, ∃ as₁ as₂,
    as = as₁ ++ .raise :: as₂ ∧ r.handler = registered errorName as₁

/-- **Every step keeps the handlers in line with the actions.** -/
theorem heard_snoc (hh : Heard as s) (h : s.step a = some s') : Heard (as ++ [a]) s' := by
  have hearlier : ∀ r ∈ Emitter.raisedOf errorName s, ∃ as₁ as₂,
      as ++ [a] = as₁ ++ .raise :: as₂ ∧ r.handler = registered errorName as₁ :=
    fun r hr => handlers_snoc (hh.handlers r hr)
  cases step_turns h with
  | quiet hreg hdec herr hevents hconn hraised hsus =>
    have hopen : (as.findSome? (·.decides)).isSome = false → a.decides = none := by
      rw [← hh.decided]
      exact hdec
    constructor
    · intro event hne
      rw [hevents, registered_quiet (hreg event hne)]
      exact hh.events event hne
    · rw [hconn, hh.decided, decides_snoc]
      cases hd : (as.findSome? (·.decides)).isSome with
      | true => rfl
      | false => rw [hopen hd]; rfl
    · rw [raisedOf_same hraised, connectRaised_quiet hopen]
      exact hh.connect
    · rw [raisedOf_same hraised, hsus, errors_snoc, herr, Option.toList_none, List.append_nil]
      exact hh.errors
    · rw [raisedOf_same hraised]
      exact hearlier
  | @on cbName fn hfn hevents hconn hraised hsus =>
    constructor
    · intro event hne
      rw [hevents, lookup_on, registered_snoc]
      by_cases he : event = EventNames.asciiValue cbName
      · simp [EmitterAction.registers, he, hfn]
      · rw [if_neg he, hh.events event hne]
        simp [EmitterAction.registers, Ne.symm he]
    · rw [hconn, hh.decided, decides_snoc]
      exact (Bool.or_false _).symm
    · rw [raisedOf_same hraised, connectRaised_quiet fun _ => rfl]
      exact hh.connect
    · rw [raisedOf_same hraised, hsus, errors_snoc]
      simpa [EmitterAction.error] using hh.errors
    · rw [raisedOf_same hraised]
      exact hearlier
  | decide hdec hreg hopen hevents hconn hraised hsus =>
    constructor
    · intro event hne
      rw [hevents, registered_quiet (hreg event)]
      exact hh.events event hne
    · rw [hconn, decides_snoc, hdec, Option.isSome_some, Bool.or_true]
    · have hundecided : (as.findSome? (·.decides)).isSome = false := by
        rw [← hh.decided]
        exact hopen
      have hnone : as.findSome? (·.decides) = none := Option.isNone_iff_eq_none.mp
        (Option.isSome_eq_false_iff.mp hundecided)
      rw [raisedOf_self hraised rfl, hh.connect, connectRaised_undecided hundecided, hdec,
        connectRaised, hnone, hh.events _ connectName_ne]
      rfl
    · rw [raisedOf_other hraised connectName_ne_errorName, hsus, errors_snoc, List.map_append,
        List.map_append]
      exact (List.perm_append_comm_assoc _ _ _).trans
        ((hh.errors.append_left _).trans List.perm_append_comm)
    · rw [raisedOf_other hraised connectName_ne_errorName]
      exact hearlier
  | @error err errinfo hclosed hevents hconn hraised hsus =>
    constructor
    · intro event hne
      rw [hevents, registered_quiet rfl]
      exact hh.events event hne
    · have hd := hh.decided
      rw [hconn, decides_snoc, ← hd, hclosed]
      rfl
    · rw [raisedOf_same hraised, connectRaised_quiet]
      · exact hh.connect
      · rw [← hh.decided, hclosed]
        exact fun hc => nomatch hc
    · rw [raisedOf_same hraised, hsus, errors_snoc, List.map_cons, List.map_append]
      exact List.perm_middle.trans
        ((hh.errors.cons _).trans (List.perm_append_singleton _ _).symm)
    · rw [raisedOf_same hraised]
      exact hearlier
  | @raise err errinfo hevents hconn hraised hsus =>
    constructor
    · intro event hne
      rw [hevents, registered_quiet rfl]
      exact hh.events event hne
    · rw [hconn, hh.decided, decides_snoc]
      exact (Bool.or_false _).symm
    · rw [raisedOf_other hraised connectName_ne_errorName.symm, connectRaised_quiet fun _ => rfl]
      exact hh.connect
    · have hbefore := hh.errors
      rw [hsus] at hbefore
      rw [raisedOf_self hraised rfl, errors_snoc, List.map_append]
      simpa [EmitterAction.error] using hbefore
    · rw [raisedOf_self hraised rfl]
      intro r hr
      rcases List.mem_append.mp hr with hr | hr
      · exact hearlier r hr
      · cases List.mem_singleton.mp hr
        exact ⟨as, [], rfl, hh.events _ errorName_ne⟩

theorem run_heard (h : Emitter.run as = some s) : Heard as s := by
  refine Run.exec_history (fun as a s s' hh hs => heard_snoc hh hs) ?_ h
  exact ⟨fun _ _ => rfl, rfl, rfl, .nil, fun r hr => nomatch hr⟩

/-- **The `connect` handler is told of the first decision, once.** In every run, each event has the
    handler that was registered for it last, and what was raised of `connect` is nothing while the
    connection is undecided, and afterwards exactly one event: with the result of the first
    decision, for the handler registered when it was made, if there was one. -/
theorem connect_told (h : Emitter.run as = some s) :
    (∀ event, event ≠ [] → s.events.lookup event = registered event as) ∧
      s.impl.connected = (as.findSome? (·.decides)).isSome ∧
        Emitter.raisedOf connectName s = connectRaised as :=
  ⟨(run_heard h).events, (run_heard h).decided, (run_heard h).connect⟩

/-- **No error is lost and none is told twice.** In every run, each error libcouchbase reported has
    been raised once or is suspended in `errorCallback`, and never both; the handler it was raised
    for is the one registered last when `errorCallback` went on, which for the error that decides
    the connection is after the `connect` handler. In the event loop none is suspended. -/
theorem errors_told (h : Emitter.run as = some s) :
    ((Emitter.raisedOf errorName s).map (·.arg) ++
      s.suspended.map fun e => errorInfo e.1 e.2).Perm
        ((as.filterMap (·.error)).map fun e => errorInfo e.1 e.2) ∧
      (∀ r ∈ Emitter.raisedOf errorName s, ∃ as₁ as₂,
        as = as₁ ++ .raise :: as₂ ∧ r.handler = registered errorName as₁) ∧
      (s.control = [] → s.suspended = []) := by
  refine ⟨(run_heard h).errors, (run_heard h).handlers, fun hc => ?_⟩
  rw [Emitter.suspended, hc]
  rfl

end Runs

end Proof

section Example

open scoped SmallRuntime

theorem Proof.connect_told_failing : ∃ s, Emitter.run failing = some s ∧
    (Emitter.raisedOf Emitter.connectName s).length = 1 ∧
    Emitter.raisedOf Emitter.connectName s = Emitter.connectRaised failing := by
  obtain ⟨s, hs, htest⟩ := (Option.any_eq_true _ _).mp
    (show (Emitter.run failing).any
      (fun s => (Emitter.raisedOf Emitter.connectName s).length = 1) = true by decide +kernel)
  exact ⟨s, hs, of_decide_eq_true htest, (Proof.connect_told hs).2.2⟩

/-- Is it the second `error` handler of `failing`? -/
def isSecond (r : Raised) : Bool :=
  match r.handler with
  | some (.function 4) => true
  | _ => false

/-- The handler the `connect` handler registered is the one that hears of the error. -/
theorem Proof.errors_told_failing : ∃ s, Emitter.run failing = some s ∧
    (Emitter.raisedOf Emitter.errorName s).map isSecond = [true] ∧
    ∀ r ∈ Emitter.raisedOf Emitter.errorName s, ∃ as₁ as₂,
      failing = as₁ ++ .raise :: as₂ ∧ r.handler = Emitter.registered Emitter.errorName as₁ := by
  obtain ⟨s, hs, htest⟩ := (Option.any_eq_true _ _).mp
    (show (Emitter.run failing).any
      (fun s => (Emitter.raisedOf Emitter.errorName s).map isSecond = [true]) = true by
        decide +kernel)
  exact ⟨s, hs, of_decide_eq_true htest, (Proof.errors_told hs).2.1⟩

end Example

end Couchnode
