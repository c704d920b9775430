import Couchnode.Proof.Errors
import Couchnode.V8.Runtime

/-!
# The countdown of a cookie

`markProgress` on a cookie that still has `k + 1` responses to come is one equation in each
mode (`markProgress_single`, `markProgress_spooled`); what a run of responses does follows by
one induction on the run. Both are stated for any responses the cookie takes as ordinary
(`Counts`): keyed ones, or those a cancellation makes up. So the answers of libcouchbase and
the cancellation with the request's own keys are two instances of one theorem.

A cookie made for a request has as many responses to come as the request has commands
(`plain_cookie`), which is what makes the countdown come out even.
-/

set_option autoImplicit false

namespace Couchnode

namespace Proof

open Prog

variable [Runtime]

/-- The response counts down and nothing more: it has a key, or the cookie is cancelled. -/
def Counts (c : Cookie) (info : ResponseInfo) : Prop :=
  c.isCancelled = true ∨ info.hasKey = true

/-- The invocation single mode makes for a response. -/
def singleCall (c : Cookie) (info : ResponseInfo) : Invocation :=
  { fn := c.callback
    args := errorObject info.status :: (info.payload.toList.map .object) }

/-- The entry spooled mode makes for it. -/
def spooledEntry (info : ResponseInfo) : String × Value :=
  (info.keyName, .object (Cookie.spooledPayload (errorObject info.status) info))

/-- Did the response fail? -/
def failed (info : ResponseInfo) : Bool := info.status ≠ LCB_SUCCESS

section Step

variable {c : Cookie} {info : ResponseInfo} {k : Nat}

/-- One response in single mode, with `k` more to come. -/
theorem markProgress_single (hlive : c.deletes = 0) (hrem : c.remaining = k + 1)
    (hmode : c.cbType = .single) :
    c.markProgress info =
      { c with
        remaining := k, hasError := c.hasError || failed info
        calls := c.calls ++ [singleCall c info], deletes := if k = 0 then 1 else 0 } := by
  obtain ⟨status, payload, key, keyObj⟩ := info
  have hcount : c.countDown ⟨status, payload, key, keyObj⟩ = { c with remaining := k } := by
    simp [Cookie.countDown, Cookie.touch, hlive, hrem, Cookie.decrement, hmode]
  rw [Cookie.markProgress, hcount]
  by_cases hs : status = LCB_SUCCESS <;> cases payload <;> by_cases hk : k = 0 <;>
    simp [Cookie.report, Cookie.finish, Cookie.touch, Cookie.invokeSingleCallback,
      Cookie.invoke, Cookie.delete, hlive, hmode, hs, hk, failed, singleCall]

/-- One response in spooled mode: kept, and after the last one the final call. -/
theorem markProgress_spooled {ps : Props} (hlive : c.deletes = 0) (hrem : c.remaining = k + 1)
    (hmode : c.cbType = .spooled) (hinfo : c.spooledInfo = some ps) (hc : Counts c info) :
    c.markProgress info =
      let c' := { c with
        remaining := k, hasError := c.hasError || failed info
        spooledInfo := some (Assoc.set (spooledEntry info).1 (spooledEntry info).2 ps) }
      if k = 0 then { c'.invokeSpooledCallback with deletes := 1 } else c' := by
  obtain ⟨status, payload, key, keyObj⟩ := info
  have hcount : c.countDown ⟨status, payload, key, keyObj⟩ = { c with remaining := k } := by
    rcases hc with h | h <;>
      simp [Cookie.countDown, Cookie.touch, hlive, hrem, Cookie.decrement, h]
  rw [Cookie.markProgress, hcount]
  by_cases hs : status = LCB_SUCCESS <;> by_cases hk : k = 0 <;>
    simp [Cookie.report, Cookie.finish, Cookie.touch, Cookie.addSpooledInfo,
      Cookie.invokeSpooledCallback, Cookie.invoke, Cookie.delete, hlive, hmode, hinfo, hs, hk,
      failed, spooledEntry]

end Step

/-! ## Runs of responses -/

section Runs

variable {c : Cookie} {infos : List ResponseInfo} {n : Nat}

/-- The results object after some responses. -/
def resultsOf (infos : List ResponseInfo) (ps : Props) : Props :=
  Assoc.writes (infos.map spooledEntry) ps

/-- The final call of a spooled request. -/
def finalCall (c : Cookie) (results : Props) (anyFailed : Bool) : Invocation :=
  { fn := c.callback
    args := [if anyFailed then Cookie.checkResults else .undefined, .object results] }

/-- **A run in single mode**: one call for each response, in order. -/
theorem responses_single (hlive : c.deletes = 0) (hrem : c.remaining = n)
    (hmode : c.cbType = .single) (hlen : infos.length ≤ n) :
    c.responses infos =
      { c with
        remaining := n - infos.length, hasError := c.hasError || infos.any failed
        calls := c.calls ++ infos.map (singleCall c)
        deletes := if infos.length = n ∧ 0 < n then 1 else 0 } := by
  induction infos generalizing c n with
  | nil =>
    have h0 : ¬ (0 = n ∧ 0 < n) := by omega
    cases c
    cases hlive
    cases hrem
    simp [Cookie.responses, h0]
  | cons info infos ih =>
    obtain ⟨k, rfl⟩ : ∃ k, n = k + 1 := ⟨n - 1, by simp at hlen; omega⟩
    simp only [List.length_cons, Nat.add_le_add_iff_right] at hlen
    have hstep : c.markProgress info = _ := markProgress_single hlive hrem hmode
    show (c.markProgress info).responses infos = _
    rw [hstep]
    by_cases hk : k = 0
    · -- the last response: nothing is left of the list
      subst hk
      have hnil : infos = [] := List.eq_nil_of_length_eq_zero (by omega)
      subst hnil
      simp [Cookie.responses]
    · have hrest := ih (n := k) (c := { c with
        remaining := k, hasError := c.hasError || failed info
        calls := c.calls ++ [singleCall c info], deletes := 0 }) rfl rfl hmode hlen
      rw [if_neg hk, hrest]
      have hfull : (infos.length = k ∧ 0 < k) ↔ infos.length + 1 = k + 1 := by omega
      simp [singleCall, Bool.or_assoc, hfull]

/-- **A run in spooled mode**: nothing until the last response, then one call with everything
    that was kept. -/
theorem responses_spooled {ps : Props} (hlive : c.deletes = 0) (hrem : c.remaining = n)
    (hmode : c.cbType = .spooled) (hinfo : c.spooledInfo = some ps)
    (hc : ∀ info ∈ infos, Counts c info) (hlen : infos.length ≤ n) :
    c.responses infos =
      let c' := { c with
        remaining := n - infos.length, hasError := c.hasError || infos.any failed
        spooledInfo := some (resultsOf infos ps) }
      if infos.length = n ∧ 0 < n then
        { c' with calls := c.calls ++ [finalCall c (resultsOf infos ps) c'.hasError], deletes := 1 }
      else c' := by
  induction infos generalizing c n ps with
  | nil =>
    have h0 : ¬ (0 = n ∧ 0 < n) := by omega
    cases c
    cases hinfo
    cases hrem
    simp [Cookie.responses, h0, resultsOf]
  | cons info infos ih =>
    obtain ⟨k, rfl⟩ : ∃ k, n = k + 1 := ⟨n - 1, by simp at hlen; omega⟩
    simp only [List.length_cons, Nat.add_le_add_iff_right] at hlen
    have hstep := markProgress_spooled hlive hrem hmode hinfo (hc info (List.mem_cons_self ..))
    show (c.markProgress info).responses infos = _
    rw [hstep]
    by_cases hk : k = 0
    · subst hk
      have hnil : infos = [] := List.eq_nil_of_length_eq_zero (by omega)
      subst hnil
      simp [Cookie.responses, resultsOf, finalCall, Cookie.invokeSpooledCallback, Cookie.invoke,
        Cookie.touch, hlive]
    · have hrest := ih (n := k) (c := { c with
        remaining := k, hasError := c.hasError || failed info
        spooledInfo := some (Assoc.set (spooledEntry info).1 (spooledEntry info).2 ps) })
        hlive rfl hmode rfl (fun i hi => hc i (List.mem_cons_of_mem _ hi)) hlen
      simp only [if_neg hk]
      rw [hrest]
      have hfull : (infos.length = k ∧ 0 < k) ↔ infos.length + 1 = k + 1 := by omega
      simp [finalCall, resultsOf, Bool.or_assoc, hfull]

end Runs

end Proof

end Couchnode
