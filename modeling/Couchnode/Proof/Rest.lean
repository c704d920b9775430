import Couchnode.Js.Rest
import Couchnode.V8.Runtime
import Mathlib.Data.List.Perm.Subperm
import Mathlib.Data.List.TakeWhile
import Mathlib.Data.Rat.Cast.Order

/-!
# When a REST request is answered, and what its errors say

The handler reads its response and the body without looking first: an error that comes alone, a
text that is no JSON and the body `null` make it throw, as does an error in the body that has no
text. Everything else is answered once (`answered_once_iff`).

The error it computes from the status and from libcouchbase is not the one it passes on. So a
failure is passed on exactly when the body says so itself (`failure_shown_iff`).
-/

set_option autoImplicit false

namespace Couchnode

namespace Proof

open Prog Rest

variable [Runtime]

/-! ## Indices -/

section Items

variable {v : Value} {i j n : Nat}

omit [Runtime] in
theorem indexName_injective {i j : Nat} (h : toString i = toString j) : i = j := by
  have hdigits (n : Nat) : Nat.ofDigitChars 10 (toString n).toList 0 = n := by
    show Nat.ofDigitChars 10 (Nat.repr n).toList 0 = n
    rw [Nat.toList_repr, Nat.ofDigitChars_ten_toDigits]
  rw [← hdigits i, ← hdigits j, h]

omit [Runtime] in
/-- Among more index names than there are properties one is not bound. -/
theorem index_unbound (ps : Props) : ∃ i, i ≤ ps.length ∧ ps.lookup (toString i) = none := by
  by_contra hall
  have hbound (i : Nat) (hi : i ≤ ps.length) : toString i ∈ ps.map Prod.fst := by
    cases hl : ps.lookup (toString i) with
    | none => exact absurd ⟨i, hi, hl⟩ hall
    | some v => exact List.mem_map.mpr ⟨_, Assoc.mem_of_lookup hl, rfl⟩
  have hnodup : ((List.range (ps.length + 1)).map (toString : Nat → String)).Nodup :=
    List.nodup_range.map fun _ _ h => indexName_injective h
  have hsub : (List.range (ps.length + 1)).map (toString : Nat → String) ⊆ ps.map Prod.fst := by
    intro name hname
    obtain ⟨i, hi, rfl⟩ := List.mem_map.mp hname
    exact hbound i (Nat.le_of_lt_succ (List.mem_range.mp hi))
  have hlen := (List.subperm_of_subset hnodup hsub).length_le
  rw [List.length_map, List.length_map, List.length_range] at hlen
  exact absurd hlen (Nat.not_succ_le_self _)

/-- One of the first `itemCount + 1` items is not there. -/
theorem item_missing (v : Value) : ∃ i, i ≤ v.itemCount ∧ v.item i = .undefined := by
  cases v with
  | string s =>
    refine ⟨_, Nat.le_refl _, ?_⟩
    show ((utf16Units s)[(utf16Units s).length]?.map Value.string).getD .undefined = _
    rw [List.getElem?_eq_none (Nat.le_refl _)]
    rfl
  | array elems =>
    refine ⟨elems.length, ?_, ?_⟩
    · show elems.length ≤ (indexed elems).length
      unfold indexed
      rw [List.length_map, List.length_zipIdx]
    · show elems[elems.length]?.getD .undefined = _
      rw [List.getElem?_eq_none (Nat.le_refl _)]
      rfl
  | undefined | null | bool | number | function => exact ⟨0, Nat.le_refl _, rfl⟩
  | object props | error _ props | buffer _ | external _ _ =>
    obtain ⟨i, hi, hl⟩ := index_unbound (Value.entries _)
    refine ⟨i, hi, ?_⟩
    show ((Value.entries _).lookup (toString i)).getD .undefined = _
    rw [hl]
    rfl

omit [Runtime] in
/-- Below an index that is less than a number all are. -/
theorem lt_of_index_le {n : Num} (hij : i ≤ j) (hj : (Num.fin j).lt n = true) :
    (Num.fin i).lt n = true := by
  cases n with
  | nan => cases hj
  | inf negative => exact hj
  | fin q =>
    have hj : ((j : Rat) < q) := of_decide_eq_true hj
    have hij : (i : Rat) ≤ j := Nat.cast_le.mpr hij
    exact decide_eq_true (lt_of_le_of_lt hij hj)

/-- The indices of the loop are those below the length. -/
theorem mem_indices : i ∈ indices v n ↔ i < n ∧ (Num.fin i).lt v.lengthOf.toNum = true := by
  unfold indices
  constructor
  · intro h
    have hb := List.mem_takeWhile_imp (p := fun i : Nat => (Num.fin i).lt v.lengthOf.toNum) h
    exact ⟨List.mem_range.mp (List.takeWhile_subset _ h), hb⟩
  · rintro ⟨hlt, hb⟩
    obtain ⟨k, rfl⟩ := Nat.exists_eq_add_of_lt hlt
    have hpre : ∀ a ∈ List.range (i + 1), (Num.fin a).lt v.lengthOf.toNum = true := by
      intro a ha
      exact lt_of_index_le (Nat.le_of_lt_succ (List.mem_range.mp ha)) hb
    rw [Nat.add_right_comm, List.range_add, List.takeWhile_append_of_pos hpre]
    apply List.mem_append_left
    exact List.mem_range.mpr (Nat.lt_succ_self i)

end Items

/-! ## The steps of the handler -/

section Steps

variable {v body : Value} {name : String} {s : State}

theorem read_done (h : v.isNullish = false) : read v name s = .done (v.getProperty name) s := by
  unfold Rest.read
  rw [h]
  rfl

theorem read_throws (h : v.isNullish = true) : read v name s = .refused s := by
  unfold Rest.read
  rw [h]
  rfl

theorem text_done (h : v.hasText = true) : text v s = .done v.toName s := by
  unfold text
  rw [h]
  rfl

theorem text_throws (h : ¬ v.hasText = true) : text v s = .refused s := by
  unfold text
  rw [if_neg h]
  rfl

/-- A value an error can be made of. -/
def Tellable (v : Value) : Prop := v.isNullish = false ∧ v.hasText = true

theorem restError_done {what of : Value} (ht : what.hasText = true) (hof : of.isNullish = false) :
    ∃ msg ps, restError what of s = .done (.error msg ps) s := by
  unfold restError
  rw [bind_of_done (text_done ht), bind_of_done (read_done hof)]
  exact ⟨_, _, rfl⟩

theorem restError_throws {what of : Value} (h : ¬ (what.hasText = true ∧ of.isNullish = false)) :
    restError what of s = .refused s := by
  unfold restError
  by_cases ht : what.hasText = true
  · rw [bind_of_done (text_done ht)]
    apply bind_of_refused
    apply read_throws
    rw [← Bool.not_eq_false]
    intro hof
    exact h ⟨ht, hof⟩
  · exact bind_of_refused (text_throws ht)

/-- The errors at some indices are made exactly when every item there can be told. -/
theorem collect_done {errors : Value} {is : List Nat}
    (h : ∀ i ∈ is, Tellable (errors.item i)) : ∃ es, collect errors is s = .done es s := by
  induction is with
  | nil => exact ⟨[], rfl⟩
  | cons i is ih =>
    obtain ⟨hnull, htext⟩ := h i List.mem_cons_self
    obtain ⟨msg, ps, he⟩ := @restError_done _ s _ _ htext hnull
    obtain ⟨es, hes⟩ := ih fun j hj => h j (List.mem_cons_of_mem _ hj)
    refine ⟨.error msg ps :: es, ?_⟩
    unfold collect
    rw [bind_of_done he, bind_of_done hes]
    rfl

theorem collect_throws {errors : Value} {is : List Nat}
    (h : ∃ i ∈ is, ¬ Tellable (errors.item i)) : collect errors is s = .refused s := by
  induction is with
  | nil =>
    obtain ⟨i, hi, _⟩ := h
    cases hi
  | cons j is ih =>
    unfold collect
    by_cases hj : Tellable (errors.item j)
    · obtain ⟨msg, ps, he⟩ := @restError_done _ s _ _ hj.2 hj.1
      rw [bind_of_done he]
      apply bind_of_refused
      apply ih
      obtain ⟨i, hi, hbad⟩ := h
      rcases List.mem_cons.mp hi with rfl | hi
      · exact absurd hj hbad
      · exact ⟨i, hi, hbad⟩
    · apply bind_of_refused
      apply restError_throws
      intro htell
      exact hj ⟨htell.2, htell.1⟩

/-- Errors a list can be made of: the length is a number or turns into one, and every item below
    it can be told. -/
structure Legible (errors : Value) : Prop where
  length : errors.lengthOf.hasText = true
  items : ∀ i : Nat, (Num.fin i).lt errors.lengthOf.toNum = true → Tellable (errors.item i)

/-- **The loop goes through all of them**: an index the bound on the loop leaves out lies behind
    an item that is not there. -/
theorem errorList_done {errors : Value} (h : Legible errors) :
    ∃ es, errorList errors s = .done (.array es) s := by
  obtain ⟨es, hes⟩ := @collect_done _ s errors (indices errors (errors.itemCount + 1))
    fun i hi => h.items i (mem_indices.mp hi).2
  refine ⟨es, ?_⟩
  unfold errorList
  rw [bind_of_done (text_done h.length), bind_of_done hes]
  rfl

theorem errorList_throws {errors : Value} (h : ¬ Legible errors) :
    errorList errors s = .refused s := by
  unfold errorList
  by_cases hlen : errors.lengthOf.hasText = true
  swap
  · exact bind_of_refused (text_throws hlen)
  rw [bind_of_done (text_done hlen)]
  apply bind_of_refused
  apply collect_throws
  by_contra hall
  have htell (i : Nat) (hi : i ∈ indices errors (errors.itemCount + 1)) :
      Tellable (errors.item i) := by
    by_contra hbad
    exact hall ⟨i, hi, hbad⟩
  obtain ⟨k, hk, hmissing⟩ := item_missing errors
  apply h
  refine ⟨hlen, fun i hi => ?_⟩
  rcases Nat.lt_or_ge i (errors.itemCount + 1) with hlt | hge
  · exact htell i (mem_indices.mpr ⟨hlt, hi⟩)
  · -- then the index without an item is below the length too
    have hki : k ≤ i := Nat.le_trans hk (Nat.le_of_succ_le hge)
    obtain ⟨hnull, _⟩ :=
      htell k (mem_indices.mpr ⟨Nat.lt_succ_of_le hk, lt_of_index_le hki hi⟩)
    rw [hmissing] at hnull
    cases hnull

/-- A body whose own errors can be made into errors. -/
structure Reportable (body : Value) : Prop where
  nonnull : body.isNullish = false
  error : (body.getProperty "error").truthy = true → (body.getProperty "error").hasText = true
  errors : (body.getProperty "errors").truthy = true → Legible (body.getProperty "errors")

/-- The body says itself that the request failed. -/
def Failing (body : Value) : Prop :=
  (body.getProperty "error").truthy = true ∨ (body.getProperty "errors").truthy = true

/-- A value with a property is true. -/
theorem truthy_of_property (h : (v.getProperty name).truthy = true) : v.truthy = true := by
  cases v with
  | undefined | null | bool | number | string => cases h
  | _ => rfl

theorem body_and (body : Value) (name : String) :
    (body.truthy && (body.getProperty name).truthy) = (body.getProperty name).truthy := by
  cases hp : (body.getProperty name).truthy with
  | false => exact Bool.and_false _
  | true =>
    rw [truthy_of_property hp]
    rfl

theorem singleError_done (hnull : body.isNullish = false)
    (h : (body.getProperty "error").truthy = true → (body.getProperty "error").hasText = true) :
    ∃ e, singleError body s = .done e s ∧
      (e = .null ↔ ¬ (body.getProperty "error").truthy = true) := by
  unfold singleError
  rw [bind_of_done (read_done hnull), body_and]
  by_cases he : (body.getProperty "error").truthy = true
  · obtain ⟨msg, ps, hrun⟩ := @restError_done _ s _ _ (h he) hnull
    rw [if_pos he]
    refine ⟨_, hrun, iff_of_false ?_ ?_⟩
    · intro hn
      cases hn
    · intro hn
      exact hn he
  · rw [if_neg he]
    exact ⟨.null, rfl, iff_of_true rfl he⟩

theorem singleError_throws (hnull : body.isNullish = false)
    (ht : (body.getProperty "error").truthy = true)
    (h : ¬ (body.getProperty "error").hasText = true) : singleError body s = .refused s := by
  unfold singleError
  rw [bind_of_done (read_done hnull), body_and, if_pos ht]
  apply restError_throws
  intro htell
  exact h htell.1

theorem errorOf_done (h : Reportable body) :
    ∃ e, errorOf body s = .done e s ∧ (e = .null ↔ ¬ Failing body) := by
  obtain ⟨e, hrun, hnull⟩ := @singleError_done _ body s h.nonnull h.error
  unfold errorOf Failing
  rw [bind_of_done hrun, bind_of_done (read_done h.nonnull), body_and]
  by_cases hes : (body.getProperty "errors").truthy = true
  · obtain ⟨es, hlist⟩ := @errorList_done _ s _ (h.errors hes)
    rw [if_pos hes]
    refine ⟨.array es, hlist, iff_of_false ?_ ?_⟩
    · intro hn
      cases hn
    · intro hn
      exact hn (.inr hes)
  · rw [if_neg hes]
    refine ⟨e, rfl, hnull.trans ?_⟩
    constructor
    · rintro he (he' | hes')
      · exact he he'
      · exact hes hes'
    · intro hn he
      exact hn (.inl he)

theorem errorOf_throws (hnull : body.isNullish = false) (h : ¬ Reportable body) :
    errorOf body s = .refused s := by
  unfold errorOf
  by_cases he : (body.getProperty "error").truthy = true → (body.getProperty "error").hasText = true
  · obtain ⟨e, hrun, _⟩ := @singleError_done _ body s hnull he
    have herrors : (body.getProperty "errors").truthy = true ∧
        ¬ Legible (body.getProperty "errors") := by
      by_contra hn
      apply h
      refine ⟨hnull, he, fun ht => ?_⟩
      by_contra hread
      exact hn ⟨ht, hread⟩
    obtain ⟨htruthy, hread⟩ := herrors
    rw [bind_of_done hrun, bind_of_done (read_done hnull), body_and, if_pos htruthy]
    exact errorList_throws hread
  · obtain ⟨htruthy, htext⟩ := Classical.not_imp.mp he
    exact bind_of_refused (singleError_throws hnull htruthy htext)

/-- What is passed on of a body: its rows, else its results, else the body if it has views. -/
def selected (body : Value) : Value :=
  if (body.getProperty "rows").truthy then body.getProperty "rows"
  else if (body.getProperty "results").truthy then body.getProperty "results"
  else if (body.getProperty "views").truthy then body
  else .null

theorem resultsOf_done (hnull : body.isNullish = false) :
    Rest.resultsOf body s = .done (selected body) s := by
  unfold Rest.resultsOf selected
  rw [bind_of_done (read_done hnull), bind_of_done (read_done hnull), bind_of_done (read_done hnull)]
  split_ifs <;> rfl

end Steps

/-! ## The response -/

section Response

variable {err : Int} {resp : HttpResp} {body : Value}

/-- What the native layer hands over as the response. -/
abbrev payloadOf (err : Int) (resp : HttpResp) : Value := .object (Cookie.httpPayload err resp)

/-- The text `JSON.parse` is given: without a body it is that of `undefined`. -/
def bodyText (resp : HttpResp) : String :=
  if resp.bytes = [] then "undefined" else Runtime.stringNew resp.bytes

theorem payload_content :
    (Value.toName ((payloadOf err resp).getProperty NameMap.httpContent)) = bodyText resp := by
  unfold Value.getProperty bodyText
  show Value.toName ((List.lookup NameMap.httpContent (Cookie.httpPayload err resp)).getD
    .undefined) = _
  unfold Cookie.httpPayload
  have hpath : NameMap.httpContent ≠ NameMap.httpPath := by decide
  have herr : NameMap.httpContent ≠ NameMap.err := by decide
  have hstatus : NameMap.httpContent ≠ NameMap.httpStatus := by decide
  cases resp.path <;> by_cases hb : resp.bytes = [] <;> by_cases he : err = LCB_SUCCESS <;>
    simp [hb, he, Assoc.lookup_set, hpath, herr, hstatus, Value.toName]

theorem httpError_done : ∃ e, httpError (errorObject err) (payloadOf err resp) {} = .done e {} := by
  unfold httpError
  rw [bind_of_done (read_done rfl)]
  split_ifs
  · exact ⟨_, rfl⟩
  · exact ⟨_, rfl⟩

/-- The handler has read the response. -/
theorem handler_parses : makeRestHandler (Delivery.answered err resp).args {} =
    (parse (payloadOf err resp) >>= answer) {} := by
  obtain ⟨e, hstatus⟩ := @httpError_done _ err resp
  exact bind_of_done hstatus

theorem body_parsed (hparse : Runtime.jsonParse (bodyText resp) = .ok body) :
    parse (payloadOf err resp) {} = .done body {} := by
  unfold parse
  rw [bind_of_done (read_done rfl), payload_content, hparse]
  rfl

theorem body_unparsed {e : Value} (hparse : Runtime.jsonParse (bodyText resp) = .error e) :
    parse (payloadOf err resp) {} = .done .undefined { calls := [(e, .null)] } := by
  unfold parse
  rw [bind_of_done (read_done rfl), payload_content, hparse]
  rfl

/-- And the body. -/
theorem handler_parsed (hparse : Runtime.jsonParse (bodyText resp) = .ok body) :
    makeRestHandler (Delivery.answered err resp).args {} = answer body {} :=
  handler_parses.trans (bind_of_done (body_parsed hparse))

/-- **A body that can be told is answered once.** -/
theorem handler_answers (hparse : Runtime.jsonParse (bodyText resp) = .ok body)
    (h : Reportable body) :
    ∃ e s, makeRestHandler (Delivery.answered err resp).args {} = .done () s ∧
      s.calls = [(e, selected body)] ∧ (e = .null ↔ ¬ Failing body) := by
  have hlog : ∃ s, Prog.when (body.getProperty "debug_info").truthy
      (log (body.getProperty "debug_info")) {} = .done () s ∧ s.calls = [] := by
    unfold Prog.when
    split_ifs
    · exact ⟨_, rfl, rfl⟩
    · exact ⟨_, rfl, rfl⟩
  obtain ⟨s, hlog, hcalls⟩ := hlog
  obtain ⟨e, hrun, hnull⟩ := @errorOf_done _ body s h
  refine ⟨e, { s with calls := s.calls ++ [(e, selected body)] }, ?_, ?_, hnull⟩
  · rw [handler_parsed hparse]
    unfold answer
    rw [bind_of_done (read_done h.nonnull), bind_of_done hlog, bind_of_done hrun,
      bind_of_done (resultsOf_done h.nonnull)]
    rfl
  · show s.calls ++ [(e, selected body)] = _
    rw [hcalls]
    rfl

/-- Any other one makes it throw before there is a call. -/
theorem handler_throws (hparse : Runtime.jsonParse (bodyText resp) = .ok body)
    (h : ¬ Reportable body) :
    ∃ s, makeRestHandler (Delivery.answered err resp).args {} = .refused s ∧ s.calls = [] := by
  rw [handler_parsed hparse]
  unfold answer
  cases hnull : body.isNullish with
  | true => exact ⟨_, bind_of_refused (read_throws hnull), rfl⟩
  | false =>
    rw [bind_of_done (read_done hnull)]
    unfold Prog.when
    split_ifs
    · exact ⟨_, (bind_of_done rfl).trans (bind_of_refused (errorOf_throws hnull h)), rfl⟩
    · exact ⟨_, (bind_of_done rfl).trans (bind_of_refused (errorOf_throws hnull h)), rfl⟩

/-- A text that is no JSON is reported, and then the handler throws. -/
theorem handler_unparsed {e : Value} (hparse : Runtime.jsonParse (bodyText resp) = .error e) :
    ∃ s, makeRestHandler (Delivery.answered err resp).args {} = .refused s ∧
      s.calls = [(e, .null)] := by
  refine ⟨{ calls := [(e, .null)] }, ?_, rfl⟩
  rw [handler_parses, bind_of_done (body_unparsed hparse)]
  exact bind_of_refused (read_throws rfl)

/-- An error that comes alone makes the handler throw. -/
theorem handler_alone (error : Value) :
    makeRestHandler [error] {} = .refused {} :=
  bind_of_refused (bind_of_refused (read_throws rfl))

end Response

/-! ## Once -/

/-- The inner callback is called once, and the handler returns. -/
def AnswersOnce (d : Delivery) : Prop :=
  ∃ s, makeRestHandler d.args {} = .done () s ∧ s.calls.length = 1

/-- There is a response with a body that can be told. -/
def Answerable (d : Delivery) : Prop :=
  ∃ err resp body, d = .answered err resp ∧ Runtime.jsonParse (bodyText resp) = .ok body ∧
    Reportable body

/-- **A request is answered once exactly when there is a response whose body is JSON other than
    `null` with errors, if any, that have a text.** -/
theorem answered_once_iff (d : Delivery) : AnswersOnce d ↔ Answerable d := by
  constructor
  · rintro ⟨s, hrun, hone⟩
    cases d with
    | rejected ex => cases (handler_alone ex.asValue).symm.trans hrun
    | cancelled err => cases (handler_alone (errorObject err)).symm.trans hrun
    | answered err resp =>
      cases hparse : Runtime.jsonParse (bodyText resp) with
      | error e =>
        obtain ⟨s', hthrow, _⟩ := @handler_unparsed _ err resp e hparse
        cases hthrow.symm.trans hrun
      | ok body =>
        refine ⟨err, resp, body, rfl, hparse, ?_⟩
        by_contra hbad
        obtain ⟨s', hthrow, _⟩ := @handler_throws _ err resp body hparse hbad
        cases hthrow.symm.trans hrun
  · rintro ⟨err, resp, body, rfl, hparse, hbody⟩
    obtain ⟨e, s, hrun, hcalls, _⟩ := @handler_answers _ err resp body hparse hbody
    refine ⟨s, hrun, ?_⟩
    rw [hcalls]
    rfl

/-! ## Failures -/

/-- What the inner callback was given, also by a handler that throws in the end. -/
def callsMade : Outcome State Unit → List (Value × Value)
  | .fault => []
  | .refused s | .done _ s => s.calls

/-- Libcouchbase reports no error, and the status is a success. -/
def Succeeded (err : Int) (resp : HttpResp) : Prop :=
  err = LCB_SUCCESS ∧ 200 ≤ resp.status ∧ resp.status ≤ 299

/-- **No failure is passed on as a success**: a failed request has an error, and one without an
    error has the results of the body. -/
def FailureShown (err : Int) (resp : HttpResp) (body : Value) : Prop :=
  ∀ call ∈ callsMade (makeRestHandler (Delivery.answered err resp).args {}),
    (¬ Succeeded err resp ∨ Failing body → call.1 ≠ .null) ∧
    (call.1 = .null → call.2 = selected body)

/-- **Only the errors of the body are passed on**: so a failure is shown exactly when libcouchbase
    and the status have none, or the body has one. -/
theorem failure_shown_iff {err : Int} {resp : HttpResp} {ps : Props}
    (hparse : Runtime.jsonParse (bodyText resp) = .ok (.object ps)) :
    FailureShown err resp (.object ps) ↔ Succeeded err resp ∨ Failing (.object ps) := by
  by_cases hbody : Reportable (.object ps)
  · obtain ⟨e, s, hrun, hcalls, hnull⟩ := @handler_answers _ err resp _ hparse hbody
    unfold FailureShown
    rw [hrun]
    show (∀ call ∈ s.calls, _) ↔ _
    rw [hcalls]
    constructor
    · intro hshown
      obtain ⟨herror, _⟩ := hshown (e, selected (.object ps)) List.mem_cons_self
      by_contra hn
      obtain ⟨hstatus, hfail⟩ := not_or.mp hn
      exact herror (.inl hstatus) (hnull.mpr hfail)
    · intro h call hcall
      cases List.mem_singleton.mp hcall
      refine ⟨fun hfailed he => ?_, fun _ => rfl⟩
      have hnone := hnull.mp he
      rcases hfailed with hstatus | hfail
      · rcases h with hs | hfail
        · exact hstatus hs
        · exact hnone hfail
      · exact hnone hfail
  · -- errors without a text: nothing is passed on, and the body has one
    have hfail : Failing (.object ps) := by
      by_contra hn
      obtain ⟨herror, herrors⟩ := not_or.mp hn
      exact hbody ⟨rfl, fun h => absurd h herror, fun h => absurd h herrors⟩
    obtain ⟨s, hrun, hcalls⟩ := @handler_throws _ err resp _ hparse hbody
    apply iff_of_true _ (.inr hfail)
    intro call hcall
    rw [hrun] at hcall
    have hcall : call ∈ s.calls := hcall
    rw [hcalls] at hcall
    cases hcall

end Proof

section Example

open scoped SmallRuntime

/-- A response with a text. -/
def responseWith (status : Int) (text : String) : HttpResp :=
  { status := status, bytes := utf8 text }

theorem Proof.bodyText_of {status : Int} {text : String} (h : utf8 text ≠ []) :
    Proof.bodyText (responseWith status text) = text := by
  unfold Proof.bodyText responseWith
  rw [if_neg h]
  exact SmallRuntime.stringNewInverse text

/-- An error that comes alone is not passed on; a text that is no JSON is passed on and then the
    handler throws; the body `null` makes it throw at once. -/
theorem Proof.cancelled_unanswered :
    (¬ Proof.AnswersOnce (.cancelled 16) ∧ makeRestHandler (Delivery.cancelled 16).args {} =
      .refused {}) ∧
    (¬ Proof.AnswersOnce (.answered 0 (responseWith 200 "x")) ∧
      (Proof.callsMade (makeRestHandler
        (Delivery.answered 0 (responseWith 200 "x")).args {})).length = 1) ∧
    (¬ Proof.AnswersOnce (.answered 0 (responseWith 200 "null")) ∧
      Proof.callsMade (makeRestHandler
        (Delivery.answered 0 (responseWith 200 "null")).args {}) = []) := by
  have hthrown {d : Delivery} {s : Rest.State} (hr : makeRestHandler d.args {} = .refused s) :
      ¬ Proof.AnswersOnce d := by
    rintro ⟨s', hdone, _⟩
    cases hr.symm.trans hdone
  have hx : Proof.bodyText (responseWith 200 "x") = "x" := Proof.bodyText_of (by decide +kernel)
  have hnull : Proof.bodyText (responseWith 200 "null") = "null" :=
    Proof.bodyText_of (by decide +kernel)
  have hbad : Runtime.jsonParse "x" = .error (.error "SyntaxError" []) := by
    simp [Runtime.jsonParse, SmallRuntime.jsonParse]
  have hok : Runtime.jsonParse "null" = .ok .null := by
    simp [Runtime.jsonParse, SmallRuntime.jsonParse]
  have halone := Proof.handler_alone (errorObject 16)
  obtain ⟨s, hs, hcalls⟩ := @Proof.handler_unparsed _ 0 (responseWith 200 "x") _
    ((congrArg _ hx).trans hbad)
  obtain ⟨s', hs', hcalls'⟩ := @Proof.handler_throws _ 0 (responseWith 200 "null") _
    ((congrArg _ hnull).trans hok) fun h => Bool.noConfusion h.nonnull
  refine ⟨⟨hthrown halone, halone⟩, ⟨hthrown hs, ?_⟩, ⟨hthrown hs', ?_⟩⟩
  · rw [hs]
    show s.calls.length = 1
    rw [hcalls]
    rfl
  · rw [hs']
    exact hcalls'

theorem Proof.emptyObject_parsed (status : Int) :
    Runtime.jsonParse (Proof.bodyText (responseWith status "{}")) = .ok (.object []) := by
  rw [Proof.bodyText_of (by decide +kernel)]
  simp [Runtime.jsonParse, SmallRuntime.jsonParse]

/-- A success without anything to show. -/
theorem Proof.failure_shown_iff_ok : Proof.FailureShown 0 (responseWith 200 "{}") (.object []) :=
  (Proof.failure_shown_iff (Proof.emptyObject_parsed 200)).mpr
    (.inl ⟨rfl, Int.le_refl 200, by decide⟩)

/-- A server error with an innocuous body is passed on as `null`. -/
theorem Proof.status_hidden :
    Proof.callsMade (makeRestHandler
        (Delivery.answered 0 (responseWith 500 "{}")).args {}) = [(.null, .null)] ∧
      ¬ Proof.FailureShown 0 (responseWith 500 "{}") (.object []) := by
  have hnone : ¬ Proof.Failing (.object []) := by
    rintro (h | h) <;> cases h
  have hbody : Proof.Reportable (.object []) :=
    ⟨rfl, fun h => absurd (.inl h) hnone, fun h => absurd (.inr h) hnone⟩
  obtain ⟨e, s, hrun, hcalls, hnull⟩ :=
    @Proof.handler_answers _ 0 _ _ (Proof.emptyObject_parsed 500) hbody
  cases hnull.mpr hnone
  have hmade : Proof.callsMade (makeRestHandler
      (Delivery.answered 0 (responseWith 500 "{}")).args {}) = [(.null, .null)] := by
    rw [hrun]
    exact hcalls
  refine ⟨hmade, fun hshown => ?_⟩
  have hfailed : ¬ Proof.Succeeded 0 (responseWith 500 "{}") := by
    rintro ⟨_, _, hle⟩
    exact absurd hle (by decide)
  obtain ⟨herror, _⟩ := hshown (.null, .null) (by rw [hmade]; exact List.mem_cons_self)
  exact herror (.inl hfailed) rfl

end Example

end Couchnode
