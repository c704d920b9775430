import Couchnode.Proof.Tidy
import Couchnode.V8.Runtime

/-!
# A rejected request

`rejection_reported` is the whole story of a request that `initialize` or `process` turns
down: the error is the first one recorded, the connection is as it was but for the memory
of the abandoned object, and there is exactly one report — the application's callback if
the last argument is a function, an exception if it is not.

The exception goes through `throwV8`, which asserts that the message is not empty. Without a
callback the request never gets past `initialize`, and `initialize_spoken` shows that every
error recorded there has a text. (The encoder's allocation failure has none, but by then there
is a callback.)
-/

set_option autoImplicit false

namespace Couchnode

namespace Proof

open Prog

variable [Runtime] {α O : Type}

/-! ## A request that gets past `initialize` has a callback -/

omit [Runtime] in
/-- The three ways the callback slot can end. -/
theorem callable_cases (v : Value) :
    CallableOption.parseValue v { v := none } = .ok { status := .falseVal, v := none } ∨
      (∃ c, CallableOption.parseValue v { v := none } = .bad { status := .error, v := none } c) ∨
      (v.isFunction = true ∧
        CallableOption.parseValue v { v := none } = .ok { status := .found, v := some v }) := by
  simp only [CallableOption.parseValue]
  split_ifs with hfalse hfun
  · exact .inl rfl
  · exact .inr (.inl ⟨_, rfl⟩)
  · exact .inr (.inr ⟨by simpa using hfun, rfl⟩)

theorem parseCallback_found {v : Value} {slot : Slot (Option Value)} {s s' : PState}
    (h : Command.parseCallback v s = .done slot s') (hf : slot.isFound = true) :
    v.isFunction = true ∧ slot.v = some v := by
  unfold Command.parseCallback at h
  rcases callable_cases v with hp | ⟨c, hp⟩ | ⟨hfun, hp⟩
  · rw [hp] at h; cases h; cases hf
  · rw [hp] at h; cases h; cases hf
  · rw [hp] at h; cases h; exact ⟨hfun, rfl⟩

theorem initialize_callback {cls : CommandClass O} {args : List Value} {hd : Header O}
    {s s' : PState} (h : Command.initializeCommand cls args s = .done hd s') :
    (Command.lastArg args).isFunction = true ∧
      hd.callback.v = some (Command.lastArg args) := by
  obtain ⟨_, s₁, _, h⟩ := bind_eq_done.mp h
  obtain ⟨opts, s₂, _, h⟩ := bind_eq_done.mp h
  obtain ⟨common, s₃, hc, h⟩ := bind_eq_done.mp h
  obtain ⟨callback, s₄, hcb, hc⟩ := bind_eq_done.mp hc
  obtain ⟨_, s₅, _, hc⟩ := bind_eq_done.mp hc
  cases hf : callback.isFound with
  | true =>
    rw [hf] at hc
    cases hc
    cases h
    exact parseCallback_found hcb hf
  | false => rw [hf] at hc; cases hc

/-! ## Rejection -/

/-- What `initialize` and `process` leave when they return `false`: an error, the first one
    recorded; and without a callback to report it to, one with a text. -/
theorem accept_refused {k : Kind} {args : List Value} {h : Heap} {st : PState}
    (hr : Command.accept k.cls args (Command.start h) = .refused st) :
    st.err = firstError st.recorded ∧ st.recorded ≠ [] ∧
      ((Command.lastArg args).isFunction = false → st.err.message ≠ "") := by
  have hinit := initialize_keeps (D := errors Spoken) (fun _ hc => hc) k args _
    (recorded_start Spoken h)
  rcases bind_eq_refused.mp hr with hi | ⟨hd, s₁, hi, hp⟩
  · rw [hi] at hinit
    obtain ⟨⟨herr, hall⟩, hne⟩ := hinit
    refine ⟨herr, hne, fun _ => ?_⟩
    obtain ⟨c, cs, hcs⟩ := List.exists_cons_of_ne_nil hne
    rw [herr, hcs]
    exact hall c (by rw [hcs]; exact List.mem_cons_self ..)
  · rw [hi] at hinit
    have hproc := Discipline.process_keeps (D := errors fun _ => True) (fun _ => trivial) k hd s₁
      ⟨hinit.1, fun _ _ => trivial⟩
    have hcb := (initialize_callback hi).1
    rcases bind_eq_refused.mp hp with hp | ⟨_, _, _, hp⟩
    · rw [hp] at hproc
      exact ⟨hproc.1.1, hproc.2, fun hn => absurd hcb (by simp [hn])⟩
    · cases hp

/-- **A rejected request has no effect and is reported once.** -/
theorem rejection_reported (k : Kind) (args : List Value) (err : Int) (s : Impl)
    (st : PState) (hr : Command.accept k.cls args (Command.start s.heap) = .refused st) :
    st.err.isSet = true ∧ st.recorded.head?.map Complaint.exc = some st.err ∧
      (∀ x, x < s.heap.length → (Impl.unwind st).read x = s.heap.read x) ∧
      ∃ r, s.makeOperation k args err =
          some { s with heap := Impl.unwind st, log := s.log ++ [.rejected r] } ∧
        (if (Command.lastArg args).isFunction
         then r = .invoked { fn := Command.lastArg args, args := [st.err.asValue] }
         else r = .thrown st.err.asValue) := by
  obtain ⟨herr, hne, hmsg⟩ := accept_refused hr
  have hset : st.err.isSet = true := by rw [herr]; exact firstError_isSet hne
  refine ⟨hset, ?_, (unwind_old (refused_fresh hr)).2, ?_⟩
  · obtain ⟨c, cs, hcs⟩ := List.exists_cons_of_ne_nil hne
    rw [herr, hcs]
    rfl
  · have hmake : s.makeOperation k args err = (bailOut args st.err).bind fun r =>
        some { s with heap := Impl.unwind st, log := s.log ++ [.rejected r] } := by
      simp only [Impl.makeOperation, hr]
      rfl
    rw [hmake]
    cases hf : (Command.lastArg args).isFunction with
    | true =>
      have hlen : args.length ≠ 0 := by
        intro h0
        rw [List.eq_nil_of_length_eq_zero h0] at hf
        cases hf
      refine ⟨_, ?_, rfl⟩
      simp [bailOut, hf, hlen]
    | false =>
      refine ⟨_, ?_, rfl⟩
      simp [bailOut, hf, CBExc.eArguments, hset, CBExc.throwV8, hmsg hf]

end Proof

section Example

open scoped SmallRuntime

/-- A get without a callback throws. -/
theorem Proof.rejection_reported_get :
    ∃ st : PState, ∃ r, Command.accept Kind.get.cls [.string "k"] (Command.start []) = .refused st ∧
      Impl.makeOperation .get [.string "k"] 0 {} =
        some { heap := Impl.unwind st, log := [.rejected r] } ∧
      r = .thrown st.err.asValue :=
  have h := Proof.rejection_reported .get [.string "k"] 0 {} _ rfl
  ⟨_, _, rfl, h.2.2.2.choose_spec⟩

end Example

end Couchnode
