import Couchnode.Proof.Answers

/-!
# A key-less response

`markProgress` takes a response without a key for the end of a spooled request: it makes the
final call and deletes the cookie, and then goes on as for any other response. What it goes on
with is gone, so whatever else happens, the cookie is used after it was deleted. `keyless_outcome`
is what a spooled cookie that still waits for `k + 1` responses has done after one, were its fields
still there: the call and the deletion would be made twice when that was the last one.

So the clean end the branch is there for (`CleanEnd`) is never reached (`keyless_never_clean`).
-/

set_option autoImplicit false

namespace Couchnode

namespace Proof

variable [Runtime]

/-- A spooled request that ended as it should: one call, one deletion, nothing used after it. -/
structure CleanEnd (c : Cookie) : Prop where
  called : c.calls.length = 1
  deleted : c.deletes = 1
  unused : c.usedAfterDelete = false

section Keyless

variable {c : Cookie} {info : ResponseInfo} {k : Nat}

/-- The first part of `markProgress` ends the request. -/
theorem countDown_keyless (hlive : c.deletes = 0) (hrem : c.remaining = k + 1)
    (hmode : c.cbType = .spooled) (hcan : c.isCancelled = false) (hkey : info.hasKey = false) :
    c.countDown info =
      { c with
        remaining := k
        calls := c.calls ++ [finalCall c (c.spooledInfo.getD []) c.hasError], deletes := 1 } := by
  simp [Cookie.countDown, Cookie.touch, Cookie.invokeSpooledCallback, Cookie.invoke,
    Cookie.delete, Cookie.decrement, finalCall, hlive, hrem, hmode, hcan, hkey]

/-- **What a key-less response does to a spooled cookie** with `k` more to come after it, if a
    deleted cookie can still be read. -/
theorem keyless_outcome (hlive : c.deletes = 0) (hrem : c.remaining = k + 1)
    (hmode : c.cbType = .spooled) (hcan : c.isCancelled = false) (hkey : info.hasKey = false) :
    (c.markProgress info).calls.length = c.calls.length + (if k = 0 then 2 else 1) ∧
      (c.markProgress info).deletes = (if k = 0 then 2 else 1) ∧
      (c.markProgress info).usedAfterDelete = true := by
  unfold Cookie.markProgress
  rw [countDown_keyless hlive hrem hmode hcan hkey]
  -- from here on the cookie is deleted: `report` and `finish` use it all the same
  by_cases hs : info.status = LCB_SUCCESS <;> by_cases hk : k = 0 <;>
    simp [Cookie.report, Cookie.finish, Cookie.touch, Cookie.addSpooledInfo,
      Cookie.invokeSpooledCallback, Cookie.invoke, Cookie.delete, hmode, hs, hk]

end Keyless

/-- **A key-less response never ends a spooled request cleanly**, however many of the `n`
    responses have come in before it. -/
theorem keyless_never_clean {c : Cookie} {n : Nat} {infos : List ResponseInfo}
    {last : ResponseInfo} (hun : Untouched c n) (hmode : c.cbType = .spooled)
    (hcan : c.isCancelled = false) (hkeyed : ∀ info ∈ infos, info.hasKey = true)
    (hlt : infos.length < n) (hlast : last.hasKey = false) :
    ¬ CleanEnd ((c.responses infos).markProgress last) := by
  have hrun := responses_spooled hun.deletes hun.remaining hmode (hun.spooledInfo hmode)
    (fun info hi => .inr (hkeyed info hi)) (Nat.le_of_lt hlt)
  have hpart : ¬ (infos.length = n ∧ 0 < n) := by omega
  simp only [if_neg hpart] at hrun
  obtain ⟨k, hk⟩ : ∃ k, n - infos.length = k + 1 := Nat.exists_eq_succ_of_ne_zero (by omega)
  rw [hrun]
  intro hclean
  obtain ⟨_, _, hused⟩ := keyless_outcome (c := { c with
      remaining := n - infos.length, hasError := c.hasError || infos.any failed
      spooledInfo := some (resultsOf infos []) }) hun.deletes hk hmode hcan hlast
  rw [hclean.unused] at hused
  cases hused

end Proof

section Example

open scoped SmallRuntime

/-- A spooled cookie for some keys. -/
def spooledCookie (n : Nat) : Cookie := (Cookie.create .plain n).setCallback (.function 1) .spooled

/-- A response without a key. -/
def keylessResponse : ResponseInfo := { status := LCB_SUCCESS, payload := some [], key := none }

/-- The first of two responses has no key. -/
theorem Proof.keyless_never_clean_two :
    ¬ Proof.CleanEnd (((spooledCookie 2).responses []).markProgress keylessResponse) :=
  Proof.keyless_never_clean ⟨rfl, rfl, rfl, rfl, rfl, fun _ => rfl⟩ rfl rfl
    (fun _ hi => absurd hi List.not_mem_nil) Nat.zero_lt_two rfl

/-- The only response has no key: the callback is called, and the cookie deleted and used; as its
    fields can still be read here, both are done twice. -/
theorem Proof.keyless_twice :
    let c := (spooledCookie 1).markProgress keylessResponse
    c.calls.length = 2 ∧ c.deletes = 2 ∧ c.usedAfterDelete = true ∧ ¬ Proof.CleanEnd c := by
  intro c
  have hcalls : c.calls.length = 2 := rfl
  refine ⟨hcalls, rfl, rfl, fun hclean => ?_⟩
  rw [hclean.called] at hcalls
  cases hcalls

end Example

end Couchnode
