import Couchnode.Proof.ViewObjects
import Couchnode.V8.Runtime
import Mathlib.Data.List.Infix

/-!
# What becomes of the parameters of a view

A parameters object is normalised where it lies, so a call that is given it changes it unless
there is nothing to normalise; and a first page without a limit writes one to the query it is
called on (`unconsumed_iff`). Objects that are used once are another matter: along a chain of
clones every request has the parameters of all of them, the last one first, and no query object
changes once it is made (`parameters_compose`).
-/

set_option autoImplicit false

namespace Couchnode

namespace Proof

open Prog Objects

variable [Runtime]

/-! ## Parameters that stay as they are -/

section Plain

variable {ps : Props}

/-- Nothing to normalise: every field is one of a view, and where it holds a key it is what
    `JSON.stringify` makes of it, up to the first one that throws. -/
def Plain : Props → Prop
  | [] => True
  | (name, v) :: ps =>
    name ∈ viewFields ∧
      if name ∈ jsonFields then
        match Runtime.jsonStringify v with
        | .ok text => text = v ∧ Plain ps
        | .error _ => True
      else Plain ps

theorem length_normalized (ps : Props) : (normalized ps).length ≤ ps.length := by
  induction ps with
  | nil => exact Nat.le_refl _
  | cons p ps ih =>
    obtain ⟨name, v⟩ := p
    by_cases hf : name ∈ viewFields
    swap
    · rw [normalized_other hf]
      exact Nat.le_succ_of_le ih
    by_cases hj : name ∈ jsonFields
    swap
    · rw [normalized_plain hf hj]
      exact Nat.succ_le_succ ih
    cases ht : Runtime.jsonStringify v with
    | ok text =>
      rw [normalized_json hf hj ht]
      exact Nat.succ_le_succ ih
    | error e =>
      rw [normalized_throws hf hj ht]

theorem plain_iff (ps : Props) : normalized ps = ps ↔ Plain ps := by
  induction ps with
  | nil => exact iff_of_true rfl trivial
  | cons p ps ih =>
    obtain ⟨name, v⟩ := p
    unfold Plain
    by_cases hf : name ∈ viewFields
    swap
    · rw [normalized_other hf]
      apply iff_of_false
      · intro heq
        have hlen := length_normalized ps
        rw [heq, List.length_cons] at hlen
        exact absurd hlen (Nat.not_succ_le_self _)
      · rintro ⟨hin, _⟩
        exact hf hin
    rw [and_iff_right hf]
    by_cases hj : name ∈ jsonFields
    swap
    · rw [if_neg hj, normalized_plain hf hj, ← ih, List.cons.injEq, and_iff_right rfl]
    rw [if_pos hj]
    cases ht : Runtime.jsonStringify v with
    | ok text =>
      rw [normalized_json hf hj ht, ← ih, List.cons.injEq, Prod.mk.injEq, and_iff_right rfl]
    | error e => exact iff_of_true (normalized_throws hf hj ht) trivial

end Plain

/-! ## The same request -/

section Same

variable {c : ViewCall} {s s' ps : Props}

/-- The same path and under every name the same texts. -/
def SameRequest (a b : Option ViewRequest) : Prop :=
  a.map (fun r => (r.path, r.params.texts)) = b.map fun r => (r.path, r.params.texts)

/-- A request is told by what is looked up in its parameters. -/
theorem parameters_congr (h : ∀ name, (overridden s' ps).lookup name =
      (overridden s ps).lookup name) (name : String) :
    (Qs.stringify (parametersOf c s' ps)).texts name =
      (Qs.stringify (parametersOf c s ps)).texts name := by
  have hnd := nodup_overridden s ps
  have hnd' := nodup_overridden s' ps
  have hlimit : limitOf (overridden s' ps) = limitOf (overridden s ps) := by
    unfold limitOf Value.getProperty Value.entries
    rw [h]
  cases c with
  | view ddoc n => rfl
  | clone vq | query vq =>
    show (Qs.stringify (overridden s' ps)).texts name = (Qs.stringify (overridden s ps)).texts name
    rw [texts_stringify hnd', texts_stringify hnd, h]
  | firstPage vq =>
    show (Qs.stringify (firstQuery (overridden s' ps))).texts name =
      (Qs.stringify (firstQuery (overridden s ps))).texts name
    unfold firstQuery
    rw [hlimit]
    by_cases hnull : (limitOf (overridden s ps)).isNullish = true
    · rw [if_pos hnull, if_pos hnull, texts_incLimit (Assoc.nodup_keys_set hnd'),
        texts_incLimit (Assoc.nodup_keys_set hnd), limitOf_set, limitOf_set]
      by_cases hname : name = "limit"
      · rw [if_pos hname, if_pos hname]
      · rw [if_neg hname, if_neg hname, Assoc.lookup_set_ne hname, Assoc.lookup_set_ne hname, h]
    · rw [if_neg hnull, if_neg hnull, texts_incLimit hnd', texts_incLimit hnd, hlimit, h]

theorem sameRequest_of (h : Encodable ps → ∀ name, (overridden s' ps).lookup name =
    (overridden s ps).lookup name) : SameRequest (requestOf c s' ps) (requestOf c s ps) := by
  by_cases he : Encodable ps
  · rw [requestOf_done he, requestOf_done he]
    show some (_, _) = some (_, _)
    have htexts : (Qs.stringify (parametersOf c s' ps)).texts =
        (Qs.stringify (parametersOf c s ps)).texts := funext (parameters_congr (h he))
    exact congrArg (fun texts => some ((pathOf c).request [] |>.path, texts)) htexts
  · rw [requestOf_none he, requestOf_none he]
    rfl

end Same

/-! ## The parameters after a call -/

section Consumed

variable {c : ViewCall} {p : Ref} {o : JsObject} {h h' : Objects}

/-- **Parameters are not consumed**: the object is what it was, and the next call that is given it
    asks for what it would have asked for. -/
structure Unconsumed (c : ViewCall) (p : Ref) (h : Objects) : Prop where
  same : (left (c.run p h)).read p = h.read p
  next : ∀ c', HasReceiver h c' →
    SameRequest (asked (c'.run p (left (c.run p h)))) (asked (c'.run p h))

/-- When they are not: there is nothing to normalise, and the call is no first page that writes
    its limit, unless into another object, below a limit of the parameters' own. -/
structure Harmless (c : ViewCall) (p : Ref) (o : JsObject) (h : Objects) : Prop where
  plain : Plain o.props
  limit : ∀ vq, c = .firstPage vq → Encodable o.props →
    (limitGiven (vq.at (storedBy h c)) o.props).isNullish = true →
    vq.q ≠ p ∧ (o.props.lookup "limit").isSome = true

theorem limit_normalized {ps : Props} (he : Encodable ps) :
    (normalized ps).lookup "limit" = ps.lookup "limit" :=
  lookup_normalizeQuery he.eq (by decide) (by decide)

theorem limitOf_overridden {s ps : Props} (hs : (Assoc.keys s).Nodup)
    (hps : (Assoc.keys ps).Nodup) (he : Encodable ps) (vq : QueryObject) :
    limitOf (overridden s ps) = limitGiven (vq.at s) ps := by
  have hextend := @limitOf_extend _ (vq.at s) (normalized ps) hs (he.nodup hps)
  unfold limitGiven at hextend
  rw [limit_normalized he] at hextend
  exact hextend

omit [Runtime] in
theorem nodup_stored (h : Objects) (c : ViewCall) : (Assoc.keys (storedBy h c)).Nodup := by
  unfold storedBy
  cases c.receiver.bind fun vq => h.read vq.q with
  | none => exact List.nodup_nil
  | some b => exact b.nodup

omit [Runtime] in
theorem ready_query {vq : QueryObject} {b : JsObject} (hb : h.read vq.q = some b) :
    HasReceiver h (.query vq) := by
  intro vq' hvq'
  cases hvq'
  exact ⟨b, hb⟩

/-- When the limit is written, and where. -/
theorem limits_iff {r : Ref} : Limits h c o.props r ↔ Encodable o.props ∧
    ∃ vq, c = .firstPage vq ∧ r = vq.q ∧
      (limitGiven (vq.at (storedBy h c)) o.props).isNullish = true := by
  constructor
  · rintro ⟨he, ⟨vq, hc, hr⟩, hnull⟩
    refine ⟨he, vq, hc, hr, ?_⟩
    rw [← limitOf_overridden (nodup_stored h c) o.nodup he vq]
    exact hnull
  · rintro ⟨he, vq, hc, hr, hnull⟩
    refine ⟨he, ⟨vq, hc, hr⟩, ?_⟩
    rw [limitOf_overridden (nodup_stored h c) o.nodup he vq]
    exact hnull

/-- Parameters the limit is written to had none. -/
theorem limit_written {o' : JsObject} (hl : Limits h c o.props p) :
    o'.set "limit" ViewQuery.defaultLimit ≠ o := by
  intro heq
  obtain ⟨he, vq, rfl, rfl, hnull⟩ := limits_iff.mp hl
  have hown : o.props.lookup "limit" = some ViewQuery.defaultLimit := by
    rw [← heq]
    exact Assoc.lookup_set_self _ _ _
  unfold limitGiven at hnull
  rw [hown] at hnull
  cases hnull

/-- The parameters themselves are as they were. -/
theorem same_iff {h₁ : Objects} (hp : h.read p = some o) (hl : CallLeaves h c p o h₁ h') :
    h'.read p = some o ↔ Plain o.props ∧ ¬ Limits h c o.props p := by
  obtain ⟨o', ho', hprops⟩ := hl.normal.object
  by_cases hlim : Limits h c o.props p
  · rw [hl.limit p hlim, ho']
    apply iff_of_false
    · intro heq
      exact limit_written hlim (Option.some.inj heq)
    · rintro ⟨_, hn⟩
      exact hn hlim
  · rw [hl.others p (Blocks.lt_of_read hp) hlim, ho', and_iff_left hlim, ← plain_iff, ← hprops]
    constructor
    · intro heq
      rw [Option.some.inj heq]
    · intro heq
      rw [JsObject.ext heq]

/-- An object without the limit, that the call is not given, is as it was. -/
theorem CallLeaves.kept {h₁ : Objects} {r : Ref} {b : JsObject} (hl : CallLeaves h c p o h₁ h')
    (hlim : ¬ Limits h c o.props r) (hb : h.read r = some b) (hne : r ≠ p) :
    h'.read r = some b := by
  rw [hl.others r (Blocks.lt_of_read hb) hlim]
  exact hl.normal.only.read hb hne

theorem CallLeaves.limited {h₁ : Objects} {r : Ref} {b : JsObject} (hl : CallLeaves h c p o h₁ h')
    (hlim : Limits h c o.props r) (hb : h.read r = some b) (hne : r ≠ p) :
    h'.read r = some (b.set "limit" ViewQuery.defaultLimit) := by
  rw [hl.limit r hlim, hl.normal.only.read hb hne]
  rfl

theorem CallLeaves.ready {h₁ : Objects} {c' : ViewCall} (hl : CallLeaves h c p o h₁ h')
    (hc : HasReceiver h c') : HasReceiver h' c' := by
  intro vq hvq
  obtain ⟨b, hb⟩ := hc vq hvq
  obtain ⟨b₁, hb₁⟩ := hl.normal.read hb
  by_cases hlim : Limits h c o.props vq.q
  · rw [hl.limit _ hlim, hb₁]
    exact ⟨_, rfl⟩
  · rw [hl.others _ (Blocks.lt_of_read hb) hlim]
    exact ⟨b₁, hb₁⟩

/-- What a query object keeps after a call that left its parameters alone. -/
theorem stored_after {h₁ : Objects} {c' : ViewCall} (hp : h.read p = some o)
    (hl : CallLeaves h c p o h₁ h') (hsame : h'.read p = some o) (hc : HasReceiver h c') :
    storedBy h' c' = storedBy h c' ∨ (∃ vq, c'.receiver = some vq ∧ Limits h c o.props vq.q ∧
      storedBy h' c' = forceSet "limit" ViewQuery.defaultLimit (storedBy h c')) := by
  cases hrec : c'.receiver with
  | none =>
    left
    unfold storedBy
    rw [hrec]
    rfl
  | some vq =>
    obtain ⟨b, hb⟩ := hc vq hrec
    by_cases hlim : Limits h c o.props vq.q
    · right
      have hne : vq.q ≠ p := by
        intro heq
        rw [heq] at hlim
        exact ((same_iff hp hl).mp hsame).2 hlim
      refine ⟨vq, rfl, hlim, ?_⟩
      rw [stored_eq hrec (hl.limited hlim hb hne), stored_eq hrec hb]
      rfl
    · left
      by_cases heq : vq.q = p
      · rw [heq] at hb
        cases hp.symm.trans hb
        rw [stored_eq hrec (heq ▸ hsame), stored_eq hrec (heq ▸ hp)]
      · rw [stored_eq hrec (hl.kept hlim hb heq), stored_eq hrec hb]

/-- A limit of the parameters' own hides the stored one. -/
theorem overridden_limit {s : Props} (hs : (Assoc.keys s).Nodup) (he : Encodable o.props)
    (hown : (o.props.lookup "limit").isSome = true) (l : Value) (name : String) :
    (overridden (forceSet "limit" l s) o.props).lookup name =
      (overridden s o.props).lookup name := by
  rw [lookup_override (b := ⟨forceSet "limit" l s, Assoc.nodup_keys_set hs⟩)
    (Assoc.nodup_keys_set hs) he, lookup_override (b := ⟨s, hs⟩) hs he]
  by_cases hname : name = "limit"
  · obtain ⟨v, hv⟩ := Option.isSome_iff_exists.mp hown
    rw [hname, limit_normalized he, hv]
    rfl
  · show _ = ((normalized o.props).lookup name).or (s.lookup name)
    rw [← Assoc.lookup_set_ne hname l s]

/-- Without one the stored limit shows in the next query. -/
theorem limit_shows {vq : QueryObject} {s : Props} (hten : Runtime.numberToString (.fin 10) ≠ "")
    (hs : (Assoc.keys s).Nodup) (he : Encodable o.props)
    (hnone : o.props.lookup "limit" = none) (hnull : (limitOf s).isNullish = true) :
    ¬ SameRequest (requestOf (.query vq) (forceSet "limit" ViewQuery.defaultLimit s) o.props)
      (requestOf (.query vq) s o.props) := by
  have htexts {s : Props} (hs : (Assoc.keys s).Nodup) :
      (Qs.stringify (overridden s o.props)).texts "limit" =
        (s.lookup "limit").elim [] Qs.texts := by
    rw [texts_stringify (nodup_overridden s o.props), lookup_override (b := ⟨s, hs⟩) hs he,
      limit_normalized he, hnone]
    rfl
  rw [requestOf_done he, requestOf_done he]
  intro hsame
  have hpair := Option.some.inj hsame
  have heq := congrFun (congrArg Prod.snd hpair) "limit"
  change (Qs.stringify (overridden _ o.props)).texts "limit" =
    (Qs.stringify (overridden s o.props)).texts "limit" at heq
  rw [htexts hs, htexts (Assoc.nodup_keys_set hs), Assoc.lookup_set_self] at heq
  unfold limitOf Value.getProperty Value.entries at hnull
  cases hl : s.lookup "limit" with
  | none =>
    rw [hl] at heq
    cases heq
  | some v =>
    simp only [hl, Option.getD_some] at hnull
    rw [hl] at heq
    have hempty : Qs.texts v = [""] := by
      cases v <;> first | rfl | cases hnull
    have heq : Qs.texts ViewQuery.defaultLimit = Qs.texts v := heq
    rw [hempty] at heq
    exact hten (List.cons.inj heq).1

/-- **When the parameters of a call are not consumed.** -/
theorem unconsumed_iff (hten : Runtime.numberToString (.fin 10) ≠ "") (hp : h.read p = some o)
    (hc : HasReceiver h c) : Unconsumed c p h ↔ Harmless c p o h := by
  obtain ⟨_, h₁, hl⟩ := call_run hp hc
  generalize hleft : left (c.run p h) = h' at hl
  constructor
  · rintro ⟨hsame, hnext⟩
    rw [hleft] at hsame hnext
    have hsame : h'.read p = some o := hsame.trans hp
    obtain ⟨hplain, hnolimit⟩ := (same_iff hp hl).mp hsame
    refine ⟨hplain, fun vq hvq he hnull => ?_⟩
    have hlim : Limits h c o.props vq.q := limits_iff.mpr ⟨he, vq, hvq, rfl, hnull⟩
    have hne : vq.q ≠ p := by
      intro heq
      rw [heq] at hlim
      exact hnolimit hlim
    refine ⟨hne, ?_⟩
    by_contra hown
    have hnone : o.props.lookup "limit" = none := by
      rw [← Option.not_isSome_iff_eq_none]
      exact hown
    have hrec : c.receiver = some vq := by
      rw [hvq]
      rfl
    obtain ⟨b, hb⟩ := hc vq hrec
    have hready := ready_query hb
    have hb' := hl.limited hlim hb hne
    have hasks := hnext (.query vq) hready
    rw [(call_run hsame (hl.ready hready)).1, (call_run hp hready).1,
      stored_eq (c := .query vq) rfl hb', stored_eq (c := .query vq) rfl hb] at hasks
    rw [stored_eq hrec hb] at hnull
    unfold limitGiven at hnull
    rw [hnone] at hnull
    exact limit_shows hten b.nodup he hnone hnull hasks
  · intro hh
    have hnolimit : ¬ Limits h c o.props p := by
      intro hlim
      obtain ⟨he, vq, hvq, hr, hnull⟩ := limits_iff.mp hlim
      exact (hh.limit vq hvq he hnull).1 hr.symm
    have hsame := (same_iff hp hl).mpr ⟨hh.plain, hnolimit⟩
    constructor
    · rw [hleft, hsame, hp]
    · intro c' hready
      rw [hleft, (call_run hsame (hl.ready hready)).1, (call_run hp hready).1]
      rcases stored_after hp hl hsame hready with heq | ⟨vq, _, hlim, heq⟩
      · rw [heq]
        rfl
      · rw [heq]
        apply sameRequest_of
        intro he name
        obtain ⟨_, vq', hvq, _, hnull⟩ := limits_iff.mp hlim
        exact overridden_limit (nodup_stored h c') he (hh.limit vq' hvq he hnull).2 _ name

/-! ### Over a run -/

/-- A run of calls, each of which spares an object: it is not given it, or there is nothing to
    normalise, and it does not write its limit there. -/
inductive Spared (p : Ref) : Objects → List (ViewCall × Ref) → Objects → Prop
  | nil {h : Objects} : Spared p h [] h
  | cons {h h' : Objects} {c : ViewCall} {q : Ref} {o : JsObject} {steps : List (ViewCall × Ref)} :
      h.read q = some o → HasReceiver h c → (q = p → Plain o.props) → ¬ Limits h c o.props p →
      Spared p (left (c.run q h)) steps h' → Spared p h ((c, q) :: steps) h'

/-- One step. -/
theorem call_spares {q : Ref} {x : JsObject} (hp : h.read p = some x) (hq : h.read q = some o)
    (hc : HasReceiver h c) (hplain : q = p → Plain o.props) (hlim : ¬ Limits h c o.props p) :
    (left (c.run q h)).read p = some x := by
  obtain ⟨_, h₁, hl⟩ := call_run hq hc
  by_cases heq : q = p
  · subst heq
    cases hp.symm.trans hq
    exact (same_iff hq hl).mpr ⟨hplain rfl, hlim⟩
  · exact hl.kept hlim hp (Ne.symm heq)

/-- All of them: the object is as it was. -/
theorem run_spares {steps : List (ViewCall × Ref)} {x : JsObject} (hs : Spared p h steps h')
    (hp : h.read p = some x) : h'.read p = some x := by
  induction hs with
  | nil => exact hp
  | cons hq hc hplain hlim _ ih => exact ih (call_spares hp hq hc hplain hlim)

/-- **Which calls consume their parameters**, and what comes of those that are spared: a later
    call that is given them asks for what their properties were at first. -/
theorem parameters_kept_iff (hten : Runtime.numberToString (.fin 10) ≠ "") :
    (∀ c p o h, Blocks.read h p = some o → HasReceiver h c →
      (Unconsumed c p h ↔ Harmless c p o h)) ∧
    ∀ p o h steps h', Blocks.read h p = some o → Spared p h steps h' →
      h'.read p = some o ∧ ∀ c, HasReceiver h' c →
        asked (c.run p h') = requestOf c (storedBy h' c) o.props := by
  refine ⟨fun c p o h hp hc => unconsumed_iff hten hp hc, fun p o h steps h' hp hs => ?_⟩
  have hkept := run_spares hs hp
  exact ⟨hkept, fun c hc => (call_run hkept hc).1⟩

end Consumed

/-! ## Parameters of a chain of clones -/

section Chain

variable {h h' : Objects} {vq : QueryObject} {p : Ref} {o : JsObject} {objs : List Props}
  {name : String}

/-- The value of a field in the last object that has it. -/
def lastDefined (name : String) : List Props → Option Value
  | [] => none
  | ps :: objs => (lastDefined name objs).or (ps.lookup name)

/-- A value as it is kept: `JSON.stringify` has been applied to a key, once. -/
def encoded (name : String) (v : Value) : Value :=
  if name ∈ jsonFields then
    match Runtime.jsonStringify v with
    | .ok text => text
    | .error e => e
  else v

/-- What a query has under a name: for a field of a view the last value of it. -/
def sentValue (name : String) (objs : List Props) : Option Value :=
  if name ∈ viewFields then (lastDefined name objs).map (encoded name) else none

/-- A request with the parameters of some objects, the later ones over the earlier ones. -/
def CarriesParams (vq : QueryObject) (r : ViewRequest) (objs : List Props) : Prop :=
  r.path = ((vq.at []).request []).path ∧
    ∀ name, r.params.texts name = (sentValue name objs).elim [] Qs.texts

omit [Runtime] in
theorem lastDefined_append (ps : Props) :
    lastDefined name (objs ++ [ps]) = (ps.lookup name).or (lastDefined name objs) := by
  induction objs with
  | nil => exact (Option.or_none).symm
  | cons x objs ih =>
    show (lastDefined name (objs ++ [ps])).or (x.lookup name) = _
    rw [ih, Option.or_assoc]
    rfl

/-- Normal parameters have the fields of a view, encoded. -/
theorem lookup_normalized {ps : Props} (he : Encodable ps) :
    (normalized ps).lookup name = sentValue name [ps] := by
  unfold sentValue
  show _ = if name ∈ viewFields then (ps.lookup name).map (encoded name) else none
  induction ps with
  | nil =>
    rw [List.lookup_nil, Option.map_none, ite_self]
    rfl
  | cons q ps ih =>
    obtain ⟨k, v⟩ := q
    by_cases hf : k ∈ viewFields
    swap
    · rw [normalized_other hf, ih ((encodable_other hf).mp he), List.lookup_cons]
      by_cases hname : name ∈ viewFields
      · have hne : (name == k) = false := by
          rw [beq_eq_false_iff_ne]
          intro heq
          exact hf (heq ▸ hname)
        rw [hne]
      · rw [if_neg hname, if_neg hname]
    have hcons {v' : Value} (he : Encodable ps) (hv : v' = encoded k v) :
        ((k, v') :: normalized ps).lookup name =
          if name ∈ viewFields then (((k, v) :: ps).lookup name).map (encoded name) else none := by
      rw [List.lookup_cons, List.lookup_cons, ih he]
      by_cases heq : name = k
      · subst heq
        simp only [beq_self_eq_true, if_pos hf, hv, Option.map_some]
      · rw [beq_eq_false_iff_ne.mpr heq]
    by_cases hj : k ∈ jsonFields
    swap
    · rw [normalized_plain hf hj]
      apply hcons ((encodable_map (normalizeQuery_plain hf hj)).mp he)
      unfold encoded
      rw [if_neg hj]
    cases ht : Runtime.jsonStringify v with
    | error e => exact absurd he (not_encodable hf hj ht)
    | ok text =>
      rw [normalized_json hf hj ht]
      apply hcons ((encodable_map (normalizeQuery_json hf hj ht)).mp he)
      unfold encoded
      rw [if_pos hj, ht]

theorem sentValue_append (ps : Props) :
    sentValue name (objs ++ [ps]) = (sentValue name [ps]).or (sentValue name objs) := by
  unfold sentValue
  rw [lastDefined_append]
  by_cases hf : name ∈ viewFields
  · rw [if_pos hf, if_pos hf, if_pos hf]
    show ((ps.lookup name).or (lastDefined name objs)).map (encoded name) =
      ((ps.lookup name).map (encoded name)).or ((lastDefined name objs).map (encoded name))
    cases ps.lookup name <;> rfl
  · rw [if_neg hf, if_neg hf, if_neg hf]
    rfl

/-- A query object that keeps the parameters of some objects. -/
def KeepsParams (h : Objects) (vq : QueryObject) (objs : List Props) : Prop :=
  ∃ b, h.read vq.q = some b ∧ ∀ name, b.props.lookup name = sentValue name objs

theorem KeepsParams.frame (hk : KeepsParams h vq objs) (honly : OnlyAt p h h') (hne : vq.q ≠ p) :
    KeepsParams h' vq objs := by
  obtain ⟨b, hb, hlookup⟩ := hk
  exact ⟨b, honly.read hb hne, hlookup⟩

/-- What it overrides has one object more. -/
theorem lookup_more {b : JsObject} (hb : ∀ name, b.props.lookup name = sentValue name objs)
    (he : Encodable o.props) (name : String) :
    (overridden b.props o.props).lookup name = sentValue name (objs ++ [o.props]) := by
  rw [lookup_override b.nodup he, lookup_normalized he, hb, sentValue_append]

theorem view_keeps {ddoc n : String} (hp : h.read p = some o) (he : Encodable o.props) :
    ∃ h', QueryObject.view ddoc n p h = .done ⟨ddoc, n, p⟩ h' ∧ OnlyAt p h h' ∧
      KeepsParams h' ⟨ddoc, n, p⟩ [o.props] := by
  obtain ⟨h', hnorm, hdone, _⟩ := @create_run _ h p o ddoc n hp
  obtain ⟨o', ho', hprops⟩ := hnorm.object
  refine ⟨h', hdone he, hnorm.only, o', ho', fun name => ?_⟩
  rw [hprops]
  exact lookup_normalized he

theorem clone_keeps (hk : KeepsParams h vq objs) (hp : h.read p = some o) (he : Encodable o.props) :
    ∃ newq h', vq.clone p h = .done newq h' ∧ OnlyAt p h h' ∧ h.length ≤ newq.q ∧
      newq.ddoc = vq.ddoc ∧ newq.name = vq.name ∧ KeepsParams h' newq (objs ++ [o.props]) := by
  obtain ⟨b, hb, hlookup⟩ := hk
  obtain ⟨h', hnorm, hdone, _⟩ := clone_run hb hp
  obtain ⟨newq, hrun, hnew⟩ := hdone he
  obtain ⟨d, hd, hprops⟩ := hnew.object
  refine ⟨newq, h', hrun, hnorm.only, hnew.fresh, hnew.ddoc, hnew.name, d, hd, fun name => ?_⟩
  rw [hprops]
  exact lookup_more hlookup he name

theorem query_carries (hk : KeepsParams h vq objs) (hp : h.read p = some o)
    (he : Encodable o.props) :
    ∃ r h', vq.query p h = .done r h' ∧ OnlyAt p h h' ∧ CarriesParams vq r (objs ++ [o.props]) := by
  obtain ⟨b, hb, hlookup⟩ := hk
  obtain ⟨h', hnorm, hdone, _⟩ := query_run hb hp
  refine ⟨_, h', hdone he, hnorm.only, rfl, fun name => ?_⟩
  show (Qs.stringify (overridden b.props o.props)).texts name = _
  rw [texts_stringify (nodup_overridden _ _), lookup_more hlookup he]

/-- What a query object sends: the parameters of some objects and of the one it is given. -/
def SendsOver (h : Objects) (vq : QueryObject) (objs : List Props) : Prop :=
  ∀ p o, h.read p = some o → Encodable o.props →
    ∃ r h', vq.query p h = .done r h' ∧ CarriesParams vq r (objs ++ [o.props])

theorem KeepsParams.sends (hk : KeepsParams h vq objs) : SendsOver h vq objs := by
  intro p o hp he
  obtain ⟨r, h', hrun, _, hcarries⟩ := query_carries hk hp he
  exact ⟨r, h', hrun, hcarries⟩

/-! ### The chain -/

/-- Clones of a query object, each of the one before: all of them, from the first on. -/
def cloneChain (vq : QueryObject) : List Ref → Prog Objects (List QueryObject)
  | [] => pure [vq]
  | p :: ps => do
    let newq ← vq.clone p
    let vqs ← cloneChain newq ps
    pure (vq :: vqs)

/-- A view, its clones, and a query of the last one. -/
def chainQuery (ddoc name : String) (base : Ref) (ps : List Ref) (p : Ref) :
    Prog Objects (List QueryObject × ViewRequest) := do
  let vq ← QueryObject.view ddoc name base
  let vqs ← cloneChain vq ps
  let r ← (vqs.getLastD vq).query p
  pure (vqs, r)

/-- Objects there are, by reference. -/
abbrev Are (h : Objects) : List Ref → List JsObject → Prop :=
  List.Forall₂ fun r o => h.read r = some o

omit [Runtime] in
theorem Are.lt {ps : List Ref} {os : List JsObject} (ha : Are h ps os) :
    ∀ r ∈ ps, r < h.length := by
  have hlt : List.Forall₂ (fun r o => r < h.length ∧ h.read r = some o) ps os :=
    ha.imp fun _ _ hr => ⟨Blocks.lt_of_read hr, hr⟩
  exact ((List.forall₂_and_left ps os).mp hlt).1

omit [Runtime] in
theorem Are.frame {ps : List Ref} {os : List JsObject} (ha : Are h ps os) (honly : OnlyAt p h h')
    (hp : p ∉ ps) : Are h' ps os := by
  have hne : ∀ r ∈ ps, r ≠ p := by
    intro r hr heq
    exact hp (heq ▸ hr)
  exact ((List.forall₂_and_left ps os).mpr ⟨hne, ha⟩).imp fun _ _ hr => honly.read hr.2 hr.1

/-- What a chain has left: the objects it was not given, and the query objects it has made, each
    with the parameters up to its own. -/
structure Chained (h : Objects) (vq : QueryObject) (objs : List Props) (ps : List Ref)
    (os : List JsObject) (vqs : List QueryObject) (h' : Objects) : Prop where
  grew : h.length ≤ h'.length
  old : ∀ r, r < h.length → r ∉ ps → h'.read r = h.read r
  keeps : List.Forall₂ (KeepsParams h') vqs (os.inits.map fun pre => objs ++ pre.map JsObject.props)
  own : ∀ v ∈ vqs, v.q = vq.q ∨ h.length ≤ v.q
  last : ∃ v, vqs.getLast? = some v ∧ v.ddoc = vq.ddoc ∧ v.name = vq.name ∧
    KeepsParams h' v (objs ++ os.map JsObject.props)

theorem Chained.nil (hk : KeepsParams h vq objs) : Chained h vq objs [] [] [vq] h := by
  refine ⟨Nat.le_refl _, fun _ _ _ => rfl, ?_, ?_, vq, rfl, rfl, rfl, ?_⟩
  · show List.Forall₂ (KeepsParams h) [vq] [objs ++ []]
    rw [List.append_nil]
    exact .cons hk .nil
  · intro v hv
    rw [List.mem_singleton.mp hv]
    exact .inl rfl
  · rw [List.map_nil, List.append_nil]
    exact hk

/-- One clone, and then the chain of that one. -/
theorem Chained.cons {newq : QueryObject} {h₁ : Objects} {ps : List Ref} {os : List JsObject}
    {vqs : List QueryObject} (hk : KeepsParams h vq objs) (hqp : vq.q ≠ p) (hqps : vq.q ∉ ps)
    (honly : OnlyAt p h h₁) (hfresh : h.length ≤ newq.q) (hddoc : newq.ddoc = vq.ddoc)
    (hname : newq.name = vq.name) (hc : Chained h₁ newq (objs ++ [o.props]) ps os vqs h') :
    Chained h vq objs (p :: ps) (o :: os) (vq :: vqs) h' := by
  obtain ⟨v, hlast, hvd, hvn, hvk⟩ := hc.last
  refine ⟨Nat.le_trans honly.grew hc.grew, fun r hr hm => ?_, ?_, fun x hx => ?_, v, ?_,
    hvd.trans hddoc, hvn.trans hname, ?_⟩
  · obtain ⟨hrp, hrps⟩ := List.ne_and_not_mem_of_not_mem_cons hm
    rw [hc.old r (Nat.lt_of_lt_of_le hr honly.grew) hrps]
    exact honly.old r hr hrp
  · obtain ⟨b, hb, hlookup⟩ := hk.frame honly hqp
    have hkept : KeepsParams h' vq objs := by
      refine ⟨b, ?_, hlookup⟩
      rw [hc.old _ (Blocks.lt_of_read hb) hqps]
      exact hb
    have hmore (pre : List JsObject) : objs ++ (o :: pre).map JsObject.props =
        (objs ++ [o.props]) ++ pre.map JsObject.props := List.append_cons ..
    rw [List.inits_cons, List.map_cons, List.map_nil, List.append_nil, List.map_map]
    refine .cons hkept ?_
    simp only [Function.comp_def, hmore]
    exact hc.keeps
  · rcases List.mem_cons.mp hx with rfl | hx
    · exact .inl rfl
    · rcases hc.own x hx with heq | hge
      · rw [heq]
        exact .inr hfresh
      · exact .inr (Nat.le_trans honly.grew hge)
  · rw [List.getLast?_cons, hlast]
    rfl
  · rw [List.append_assoc] at hvk
    exact hvk

/-- **A chain of clones**, by one clone after the other. -/
theorem cloneChain_run {ps : List Ref} {os : List JsObject} (hk : KeepsParams h vq objs)
    (hos : Are h ps os) (hnd : ps.Nodup) (hq : vq.q ∉ ps) (he : ∀ o ∈ os, Encodable o.props) :
    ∃ vqs h', cloneChain vq ps h = .done vqs h' ∧ Chained h vq objs ps os vqs h' := by
  induction ps generalizing h vq objs os with
  | nil =>
    cases hos
    exact ⟨[vq], h, rfl, .nil hk⟩
  | cons p ps ih =>
    have hlt := hos.lt
    obtain ⟨o, os, hp, htail, rfl⟩ := List.forall₂_cons_left_iff.mp hos
    obtain ⟨hpps, hnd⟩ := List.nodup_cons.mp hnd
    obtain ⟨hqp, hqps⟩ := List.ne_and_not_mem_of_not_mem_cons hq
    obtain ⟨newq, h₁, hclone, honly, hfresh, hddoc, hname, hnew⟩ :=
      clone_keeps hk hp (he o List.mem_cons_self)
    -- the clone has an object of its own, that no later call is given
    have hnewps : newq.q ∉ ps := by
      intro hm
      exact absurd (hlt _ (List.mem_cons_of_mem _ hm)) (Nat.not_lt.mpr hfresh)
    obtain ⟨vqs, h', hchain, hc⟩ := ih hnew (Are.frame htail honly hpps) hnd hnewps
      fun x hx => he x (List.mem_cons_of_mem _ hx)
    refine ⟨vq :: vqs, h', ?_, .cons hk hqp hqps honly hfresh hddoc hname hc⟩
    unfold cloneChain
    rw [bind_of_done hclone, bind_of_done hchain]
    rfl

/-- A chain stops at the first parameters that `JSON.stringify` throws at. -/
theorem cloneChain_stops {ps : List Ref} {os : List JsObject} (hk : KeepsParams h vq objs)
    (hos : Are h ps os) (hnd : ps.Nodup) (hn : ∃ o ∈ os, ¬ Encodable o.props) :
    ∃ h', cloneChain vq ps h = .refused h' := by
  induction ps generalizing h vq objs os with
  | nil =>
    cases hos
    obtain ⟨o, ho, _⟩ := hn
    cases ho
  | cons p ps ih =>
    obtain ⟨o, os, hp, htail, rfl⟩ := List.forall₂_cons_left_iff.mp hos
    obtain ⟨hpps, hnd⟩ := List.nodup_cons.mp hnd
    unfold cloneChain
    by_cases he : Encodable o.props
    · obtain ⟨newq, h₁, hclone, honly, _, _, _, hnew⟩ := clone_keeps hk hp he
      have hrest : ∃ x ∈ os, ¬ Encodable x.props := by
        obtain ⟨x, hx, hnx⟩ := hn
        rcases List.mem_cons.mp hx with rfl | hx
        · exact absurd he hnx
        · exact ⟨x, hx, hnx⟩
      obtain ⟨h', hchain⟩ := ih hnew (Are.frame htail honly hpps) hnd hrest
      refine ⟨h', ?_⟩
      rw [bind_of_done hclone]
      exact bind_of_refused hchain
    · obtain ⟨b, hb, _⟩ := hk
      obtain ⟨h', _, _, hrefused⟩ := clone_run hb hp
      exact ⟨h', bind_of_refused (hrefused he)⟩

omit [Runtime] in
theorem distinct_refs {base : Ref} {ps : List Ref} (hnd : (base :: ps ++ [p]).Nodup) :
    base ∉ ps ∧ ps.Nodup ∧ base ≠ p ∧ p ∉ ps := by
  obtain ⟨hfirst, _, hdisjoint⟩ := List.nodup_append.mp hnd
  obtain ⟨hbps, hps⟩ := List.nodup_cons.mp hfirst
  refine ⟨hbps, hps, hdisjoint base List.mem_cons_self p List.mem_cons_self, fun hm => ?_⟩
  exact hdisjoint p (List.mem_cons_of_mem _ hm) p List.mem_cons_self rfl

/-- The query objects of a chain, before the query. -/
theorem chain_made {ddoc n : String} {base : Ref} {ps : List Ref} {ob : JsObject}
    {os : List JsObject} (hnd : (base :: ps ++ [p]).Nodup) (hbase : h.read base = some ob)
    (hos : Are h ps os) (hp : h.read p = some o) (heb : Encodable ob.props)
    (heos : ∀ x ∈ os, Encodable x.props) :
    ∃ vqs h₁ h' v, QueryObject.view ddoc n base h = .done ⟨ddoc, n, base⟩ h₁ ∧
      cloneChain ⟨ddoc, n, base⟩ ps h₁ = .done vqs h' ∧ h'.read p = some o ∧ (∀ v ∈ vqs, v.q ≠ p) ∧
      List.Forall₂ (KeepsParams h') vqs
        (os.inits.map fun pre => ob.props :: pre.map JsObject.props) ∧
      vqs.getLast? = some v ∧ v.ddoc = ddoc ∧ v.name = n ∧
      KeepsParams h' v (ob.props :: os.map JsObject.props) := by
  obtain ⟨hbps, hps, hpb, hpps⟩ := distinct_refs hnd
  obtain ⟨h₁, hview, honly, hk⟩ := @view_keeps _ h base ob ddoc n hbase heb
  obtain ⟨vqs, h', hchain, hc⟩ := cloneChain_run hk (hos.frame honly hbps) hps hbps heos
  obtain ⟨v, hlast, hvd, hvn, hvk⟩ := hc.last
  have hp₁ : h₁.read p = some o := honly.read hp (Ne.symm hpb)
  refine ⟨vqs, h₁, h', v, hview, hchain, ?_, fun v hv => ?_, hc.keeps, hlast, hvd, hvn, hvk⟩
  · rw [hc.old p (Blocks.lt_of_read hp₁) hpps]
    exact hp₁
  · -- every query object has an object of its own, or that of the view
    rcases hc.own v hv with heq | hge
    · rw [heq]
      exact hpb
    · exact Ne.symm (Nat.ne_of_lt (Nat.lt_of_lt_of_le (Blocks.lt_of_read hp₁) hge))

/-- A chain sends the parameters of all its objects. -/
theorem chain_sends {ddoc n : String} {base : Ref} {ps : List Ref} {ob : JsObject}
    {os : List JsObject} (hnd : (base :: ps ++ [p]).Nodup) (hbase : h.read base = some ob)
    (hos : Are h ps os) (hp : h.read p = some o)
    (he : ∀ x ∈ ob :: os ++ [o], Encodable x.props) :
    ∃ vqs r h', chainQuery ddoc n base ps p h = .done (vqs, r) h' ∧
      CarriesParams ⟨ddoc, n, base⟩ r ((ob :: os ++ [o]).map JsObject.props) ∧
      List.Forall₂ (SendsOver h') vqs
        (os.inits.map fun pre => ob.props :: pre.map JsObject.props) := by
  have heo : Encodable o.props := he o (List.mem_append_right _ List.mem_cons_self)
  have heos : ∀ x ∈ os, Encodable x.props := fun x hx =>
    he x (List.mem_append_left _ (List.mem_cons_of_mem _ hx))
  obtain ⟨vqs, h₀, h₁, v, hview, hchain, hp₁, hne, hkeeps, hlast, hvd, hvn, hvk⟩ :=
    @chain_made _ h p o ddoc n base ps ob os hnd hbase hos hp (he ob List.mem_cons_self) heos
  obtain ⟨r, h', hquery, honly, hpath, htexts⟩ := query_carries hvk hp₁ heo
  refine ⟨vqs, r, h', ?_, ⟨?_, fun name => ?_⟩, ?_⟩
  · unfold chainQuery
    rw [bind_of_done hview, bind_of_done hchain, List.getLastD_eq_getLast?, hlast]
    exact bind_of_done hquery
  · rw [hpath]
    unfold QueryObject.at ViewQuery.request
    rw [hvd, hvn]
  · rw [htexts, List.map_append]
    rfl
  · apply ((List.forall₂_and_left _ _).mpr ⟨hne, hkeeps⟩).imp
    intro v objs hv
    exact (hv.2.frame honly hv.1).sends

/-- Nothing is sent if `JSON.stringify` throws at one of them. -/
theorem chain_stops {ddoc n : String} {base : Ref} {ps : List Ref} {ob : JsObject}
    {os : List JsObject} (hnd : (base :: ps ++ [p]).Nodup) (hbase : h.read base = some ob)
    (hos : Are h ps os) (hp : h.read p = some o)
    (hn : ∃ x ∈ ob :: os ++ [o], ¬ Encodable x.props) :
    ∃ h', chainQuery ddoc n base ps p h = .refused h' := by
  unfold chainQuery
  by_cases heb : Encodable ob.props
  swap
  · obtain ⟨h', _, _, hrefused⟩ := @create_run _ h base ob ddoc n hbase
    exact ⟨h', bind_of_refused (hrefused heb)⟩
  by_cases heos : ∀ x ∈ os, Encodable x.props
  swap
  · obtain ⟨hbps, hps, _⟩ := distinct_refs hnd
    obtain ⟨h₁, hview, honly, hk⟩ := @view_keeps _ h base ob ddoc n hbase heb
    simp only [not_forall, exists_prop] at heos
    obtain ⟨h', hstops⟩ := cloneChain_stops hk (hos.frame honly hbps) hps heos
    refine ⟨h', ?_⟩
    rw [bind_of_done hview]
    exact bind_of_refused hstops
  have heo : ¬ Encodable o.props := by
    obtain ⟨x, hx, hnx⟩ := hn
    rcases List.mem_append.mp hx with hx | hx
    · rcases List.mem_cons.mp hx with rfl | hx
      · exact absurd heb hnx
      · exact absurd (heos x hx) hnx
    · rw [List.mem_singleton.mp hx] at hnx
      exact hnx
  obtain ⟨vqs, h₀, h₁, v, hview, hchain, hp₁, _, _, hlast, _, _, b, hb, _⟩ :=
    @chain_made _ h p o ddoc n base ps ob os hnd hbase hos hp heb heos
  obtain ⟨h', _, _, hrefused⟩ := query_run hb hp₁
  refine ⟨h', ?_⟩
  rw [bind_of_done hview, bind_of_done hchain, List.getLastD_eq_getLast?, hlast]
  exact bind_of_refused (hrefused heo)

/-! ### Query objects that stay -/

/-- A call that is no first page changes no object but the one it is given. -/
theorem call_keeps {c : ViewCall} {r : Ref} {x b : JsObject} (hc : ∀ vq, c ≠ .firstPage vq)
    (hready : HasReceiver h c) (hr : h.read r = some x) (hp : h.read p = some b) (hne : p ≠ r) :
    (left (c.run r h)).read p = some b := by
  obtain ⟨_, h₁, hl⟩ := call_run hr hready
  have hnolimit : ¬ Limits h c x.props p := by
    rintro ⟨_, ⟨vq, hvq, _⟩, _⟩
    exact hc vq hvq
  exact hl.kept hnolimit hp hne

/-- What another query object sends is what it would have sent. -/
theorem call_undisturbed {c : ViewCall} {r : Ref} {x b : JsObject}
    (hc : ∀ vq, c ≠ .firstPage vq) (hready : HasReceiver h c) (hr : h.read r = some x)
    (hb : h.read vq.q = some b) (hp : h.read p = some o) (hvq : vq.q ≠ r) (hpr : p ≠ r) :
    asked ((ViewCall.query vq).run p (left (c.run r h))) =
      asked ((ViewCall.query vq).run p h) := by
  have hb' := call_keeps hc hready hr hb hvq
  have hp' := call_keeps hc hready hr hp hpr
  have hquery {h : Objects} (hb : h.read vq.q = some b) (hp : h.read p = some o) :
      asked ((ViewCall.query vq).run p h) = requestOf (.query vq) b.props o.props := by
    rw [(call_run hp (ready_query hb)).1, stored_eq (c := .query vq) rfl hb]
  rw [hquery hb' hp', hquery hb hp]

/-- **The parameters of a query are composed**: along every chain of clones, if `JSON.stringify`
    throws at no key, the request has the fields of all the objects, the last value of each, and
    every query object of the chain still sends what it sent when it was made; if it throws at
    one there is no request. No query object is changed by a call that is not given its
    parameters, and is no first page. -/
theorem parameters_compose :
    (∀ ddoc n base ps p h ob os o, (base :: ps ++ [p]).Nodup → Blocks.read h base = some ob →
      Are h ps os → h.read p = some o →
      ((∀ x ∈ ob :: os ++ [o], Encodable x.props) →
        ∃ vqs r h', chainQuery ddoc n base ps p h = .done (vqs, r) h' ∧
          CarriesParams ⟨ddoc, n, base⟩ r ((ob :: os ++ [o]).map JsObject.props) ∧
          List.Forall₂ (SendsOver h') vqs
            (os.inits.map fun pre => ob.props :: pre.map JsObject.props)) ∧
      ((∃ x ∈ ob :: os ++ [o], ¬ Encodable x.props) →
        ∃ h', chainQuery ddoc n base ps p h = .refused h')) ∧
    ∀ c r x vq b p o h, (∀ vq, c ≠ ViewCall.firstPage vq) → HasReceiver h c →
      Blocks.read h r = some x → h.read vq.q = some b → h.read p = some o → vq.q ≠ r → p ≠ r →
      asked ((ViewCall.query vq).run p (left (c.run r h))) =
        asked ((ViewCall.query vq).run p h) := by
  constructor
  · intro ddoc n base ps p h ob os o hnd hbase hos hp
    exact ⟨chain_sends hnd hbase hos hp, chain_stops hnd hbase hos hp⟩
  · intro c r x vq b p o h hc hready hr hb hp hvq hpr
    exact call_undisturbed hc hready hr hb hp hvq hpr

end Chain

end Proof

/-! ## Examples -/

section Example

open scoped SmallRuntime

/-- A query without parameters of its own: its object is the first one. -/
def bareQuery : QueryObject := ⟨"d", "v", 0⟩

/-- It and parameters without a key. -/
def withLimit : Objects :=
  [some .empty, some ⟨[("limit", .number (.fin 5))], by decide⟩]

/-- Parameters without a key are not consumed. -/
theorem Proof.parameters_kept_iff_plain : Proof.Unconsumed (.query bareQuery) 1 withLimit := by
  have hp : withLimit.read 1 = some ⟨[("limit", .number (.fin 5))], by decide⟩ := rfl
  have hready : Proof.HasReceiver withLimit (.query bareQuery) := Proof.ready_query rfl
  apply ((Proof.parameters_kept_iff (by decide)).1 _ _ _ _ hp hready).mpr
  constructor
  · exact ⟨by decide, trivial⟩
  · intro vq hvq
    cases hvq

/-- It and parameters with a key, and a field of no view. -/
def withKey : Objects :=
  [some .empty, some ⟨[("startkey", .number (.fin 5)), ("foo", .number (.fin 1))], by decide⟩]

/-- The texts under a name in a request. -/
def textsAt (name : String) (r : Option ViewRequest) : Option (List String) :=
  r.map fun r => r.params.texts name

/-- A query consumes them: the field is gone, and the next request has a string for the number. -/
theorem Proof.parameters_consumed :
    ((Proof.left ((ViewCall.query bareQuery).run 1 withKey)).read 1).map
        (fun o => Assoc.keys o.props) = some ["startkey"] ∧
    textsAt "startkey" (Proof.asked ((ViewCall.query bareQuery).run 1 withKey)) = some ["5"] ∧
    textsAt "startkey" (Proof.asked ((ViewCall.query bareQuery).run 1
      (Proof.left ((ViewCall.query bareQuery).run 1 withKey)))) = some ["\"5\""] ∧
    ¬ Proof.Unconsumed (.query bareQuery) 1 withKey := by
  have hkeys : ((Proof.left ((ViewCall.query bareQuery).run 1 withKey)).read 1).map
      (fun o => Assoc.keys o.props) = some ["startkey"] := by
    decide +kernel
  refine ⟨hkeys, by decide +kernel, by decide +kernel, fun hkept => ?_⟩
  rw [hkept.same] at hkeys
  revert hkeys
  decide

/-- Parameters of a view, of a clone and of a query. -/
def keyedTwice : Objects :=
  [some ⟨[("limit", .number (.fin 5)), ("foo", .number (.fin 1))], by decide⟩,
   some ⟨[("startkey", .number (.fin 3))], by decide⟩,
   some ⟨[("startkey", .number (.fin 5))], by decide⟩]

/-- The limit is that of the view, the key that of the query. -/
theorem Proof.parameters_compose_keys : ∃ vqs r h',
    Proof.chainQuery "d" "v" 0 [1] 2 keyedTwice = .done (vqs, r) h' ∧
      r.params.texts "limit" = ["5"] ∧ r.params.texts "startkey" = ["5"] ∧
      r.params.texts "foo" = [] := by
  have hos : Proof.Are keyedTwice [1] [⟨[("startkey", .number (.fin 3))], by decide⟩] :=
    .cons rfl .nil
  have hchain := Proof.parameters_compose.1 "d" "v" 0 [1] 2 keyedTwice _ _ _ (by decide) rfl hos rfl
  obtain ⟨vqs, r, h', hrun, ⟨_, htexts⟩, _⟩ := hchain.1 fun x hx => by
    rcases List.mem_cons.mp hx with rfl | hx
    · exact ⟨_, rfl⟩
    rcases List.mem_cons.mp hx with rfl | hx
    · exact ⟨_, rfl⟩
    rw [List.mem_singleton.mp hx]
    exact ⟨_, rfl⟩
  refine ⟨vqs, r, h', hrun, ?_, ?_, ?_⟩
  · rw [htexts]
    decide +kernel
  · rw [htexts]
    decide +kernel
  · rw [htexts]
    decide +kernel

/-- An undefined key, and a list of nothing. -/
def keyless : Objects :=
  [some .empty, some ⟨[("startkey", .undefined)], by decide⟩,
   some ⟨[("stale", .array [])], by decide⟩]

/-- The key is sent as the empty text, that is no JSON, and the list is not sent. -/
theorem Proof.parameters_keyless : ∃ vqs r h',
    Proof.chainQuery "d" "v" 0 [1] 2 keyless = .done (vqs, r) h' ∧
      r.params = [("startkey", "")] ∧ ∀ v, Runtime.jsonParse "" ≠ .ok v := by
  obtain ⟨⟨vqs, r⟩, h', hrun, hparams⟩ := Outcome.exists_of_check
    (Proof.chainQuery "d" "v" 0 [1] 2 keyless)
    (fun result _ => decide (result.2.params = [("startkey", "")])) (by decide +kernel)
  exact ⟨vqs, r, h', hrun, of_decide_eq_true hparams, SmallRuntime.jsonTexts.empty⟩

end Example

end Couchnode
