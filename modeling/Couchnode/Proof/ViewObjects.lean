import Couchnode.Js.ViewObjects
import Couchnode.Proof.PageRequests

/-!
# What a call does to the objects it is given

Each program on objects is related to the function on values it is one of: what it returns or
sends is what the function says of the contents of its objects (`call_run`), and the objects it
leaves are as they were, but for the parameters, which are normalised as far as that went, and
for the query of a first page without a limit (`Normalizes`, `CallLeaves`).
-/

set_option autoImplicit false

namespace Couchnode

namespace Proof

open Prog Objects

variable [Runtime]

/-! ## Normal parameters -/

section Normalized

variable {ps q : Props} {name : String} {v text e : Value}

/-- `JSON.stringify` throws at none of the keys. -/
def Encodable (ps : Props) : Prop := ∃ q, Couchnode.normalizeQuery ps = .ok q

/-- What `normalizeQuery` leaves of some properties: from one on that `JSON.stringify` throws at
    they are as they were. -/
def normalized : Props → Props
  | [] => []
  | (name, v) :: ps =>
    if name ∉ viewFields then normalized ps
    else if name ∈ jsonFields then
      match Runtime.jsonStringify v with
      | .ok text => (name, text) :: normalized ps
      | .error _ => (name, v) :: ps
    else (name, v) :: normalized ps

theorem normalizeQuery_other (h : name ∉ viewFields) :
    Couchnode.normalizeQuery ((name, v) :: ps) = Couchnode.normalizeQuery ps := by
  conv_lhs => unfold Couchnode.normalizeQuery
  rw [if_pos h]

theorem normalizeQuery_json (h : name ∈ viewFields) (hj : name ∈ jsonFields)
    (ht : Runtime.jsonStringify v = .ok text) :
    Couchnode.normalizeQuery ((name, v) :: ps) =
      (Couchnode.normalizeQuery ps).map fun q => (name, text) :: q := by
  conv_lhs => unfold Couchnode.normalizeQuery
  rw [if_neg (not_not.mpr h), if_pos hj, ht]
  cases Couchnode.normalizeQuery ps <;> rfl

theorem normalizeQuery_throws (h : name ∈ viewFields) (hj : name ∈ jsonFields)
    (ht : Runtime.jsonStringify v = .error e) :
    Couchnode.normalizeQuery ((name, v) :: ps) = .error e := by
  unfold Couchnode.normalizeQuery
  rw [if_neg (not_not.mpr h), if_pos hj, ht]
  rfl

theorem normalizeQuery_plain (h : name ∈ viewFields) (hj : name ∉ jsonFields) :
    Couchnode.normalizeQuery ((name, v) :: ps) =
      (Couchnode.normalizeQuery ps).map fun q => (name, v) :: q := by
  conv_lhs => unfold Couchnode.normalizeQuery
  rw [if_neg (not_not.mpr h), if_neg hj]
  cases Couchnode.normalizeQuery ps <;> rfl

theorem normalized_other (h : name ∉ viewFields) :
    normalized ((name, v) :: ps) = normalized ps := by
  conv_lhs => unfold normalized
  rw [if_pos h]

theorem normalized_json (h : name ∈ viewFields) (hj : name ∈ jsonFields)
    (ht : Runtime.jsonStringify v = .ok text) :
    normalized ((name, v) :: ps) = (name, text) :: normalized ps := by
  conv_lhs => unfold normalized
  rw [if_neg (not_not.mpr h), if_pos hj, ht]

theorem normalized_throws (h : name ∈ viewFields) (hj : name ∈ jsonFields)
    (ht : Runtime.jsonStringify v = .error e) : normalized ((name, v) :: ps) = (name, v) :: ps := by
  conv_lhs => unfold normalized
  rw [if_neg (not_not.mpr h), if_pos hj, ht]

theorem normalized_plain (h : name ∈ viewFields) (hj : name ∉ jsonFields) :
    normalized ((name, v) :: ps) = (name, v) :: normalized ps := by
  conv_lhs => unfold normalized
  rw [if_neg (not_not.mpr h), if_neg hj]

theorem encodable_nil : Encodable [] := ⟨[], rfl⟩

theorem encodable_map {f : Props → Props}
    (h : Couchnode.normalizeQuery ((name, v) :: ps) = (Couchnode.normalizeQuery ps).map f) :
    Encodable ((name, v) :: ps) ↔ Encodable ps := by
  unfold Encodable
  rw [h]
  cases Couchnode.normalizeQuery ps with
  | ok q => exact iff_of_true ⟨f q, rfl⟩ ⟨q, rfl⟩
  | error e =>
    apply iff_of_false
    · rintro ⟨q, hq⟩
      cases hq
    · rintro ⟨q, hq⟩
      cases hq

theorem encodable_other (h : name ∉ viewFields) : Encodable ((name, v) :: ps) ↔ Encodable ps := by
  unfold Encodable
  rw [normalizeQuery_other h]

theorem not_encodable (h : name ∈ viewFields) (hj : name ∈ jsonFields)
    (ht : Runtime.jsonStringify v = .error e) : ¬ Encodable ((name, v) :: ps) := by
  rintro ⟨q, hq⟩
  rw [normalizeQuery_throws h hj ht] at hq
  cases hq

/-- When nothing throws, that is what it returns. -/
theorem normalized_eq (h : Couchnode.normalizeQuery ps = .ok q) : normalized ps = q := by
  induction ps generalizing q with
  | nil =>
    cases h
    rfl
  | cons p ps ih =>
    obtain ⟨name, v⟩ := p
    have hmap {f : Props → Props} (h : (Couchnode.normalizeQuery ps).map f = .ok q) :
        ∃ q', Couchnode.normalizeQuery ps = .ok q' ∧ q = f q' := by
      cases hq : Couchnode.normalizeQuery ps with
      | error e =>
        rw [hq] at h
        cases h
      | ok q' =>
        rw [hq] at h
        cases h
        exact ⟨q', rfl, rfl⟩
    by_cases hf : name ∈ viewFields
    swap
    · rw [normalizeQuery_other hf] at h
      rw [normalized_other hf]
      exact ih h
    by_cases hj : name ∈ jsonFields
    swap
    · rw [normalizeQuery_plain hf hj] at h
      obtain ⟨q', hq', rfl⟩ := hmap h
      rw [normalized_plain hf hj, ih hq']
    cases ht : Runtime.jsonStringify v with
    | error e =>
      rw [normalizeQuery_throws hf hj ht] at h
      cases h
    | ok text =>
      rw [normalizeQuery_json hf hj ht] at h
      obtain ⟨q', hq', rfl⟩ := hmap h
      rw [normalized_json hf hj ht, ih hq']

theorem Encodable.eq (h : Encodable ps) :
    Couchnode.normalizeQuery ps = .ok (normalized ps) := by
  obtain ⟨q, hq⟩ := h
  rw [normalized_eq hq]
  exact hq

theorem normalize_error (h : ¬ Encodable ps) : ∃ e, Couchnode.normalizeQuery ps = .error e := by
  cases hq : Couchnode.normalizeQuery ps with
  | error e => exact ⟨e, rfl⟩
  | ok q => exact absurd ⟨q, hq⟩ h

theorem Encodable.nodup (h : Encodable ps) (hnd : (Assoc.keys ps).Nodup) :
    (Assoc.keys (normalized ps)).Nodup :=
  hnd.sublist (keys_normalizeQuery h.eq)

end Normalized

/-! ## Objects -/

section Steps

variable {h h' h'' : Objects} {r p : Ref} {o : JsObject} {f : JsObject → JsObject}

/-- Only one of the objects there were has changed. -/
structure OnlyAt (p : Ref) (h h' : Objects) : Prop where
  grew : h.length ≤ h'.length
  old : ∀ r, r < h.length → r ≠ p → h'.read r = h.read r

omit [Runtime] in
theorem OnlyAt.refl (p : Ref) (h : Objects) : OnlyAt p h h := ⟨Nat.le_refl _, fun _ _ _ => rfl⟩

omit [Runtime] in
theorem OnlyAt.trans (h₁ : OnlyAt p h h') (h₂ : OnlyAt p h' h'') : OnlyAt p h h'' := by
  refine ⟨Nat.le_trans h₁.grew h₂.grew, fun r hr hne => ?_⟩
  rw [h₂.old r (Nat.lt_of_lt_of_le hr h₁.grew) hne]
  exact h₁.old r hr hne

omit [Runtime] in
theorem onlyAt_put (o : JsObject) : OnlyAt p h (h.put p o) :=
  ⟨Nat.le_of_eq Blocks.length_put.symm, fun _ _ hne => Blocks.read_put_ne hne⟩

omit [Runtime] in
theorem onlyAt_alloc (p : Ref) (o : JsObject) : OnlyAt p h (h.alloc o) := by
  refine ⟨?_, fun r hr _ => Blocks.read_alloc_lt hr⟩
  rw [Blocks.length_alloc]
  exact Nat.le_succ _

omit [Runtime] in
/-- A change to an object that was not there changes none of those that were. -/
theorem OnlyAt.then_new {n : Ref} (h₁ : OnlyAt p h h') (hn : h.length ≤ n)
    (h₂ : OnlyAt n h' h'') : OnlyAt p h h'' := by
  refine ⟨Nat.le_trans h₁.grew h₂.grew, fun r hr hne => ?_⟩
  rw [h₂.old r (Nat.lt_of_lt_of_le hr h₁.grew) (Nat.ne_of_lt (Nat.lt_of_lt_of_le hr hn))]
  exact h₁.old r hr hne

omit [Runtime] in
theorem load_done (hr : h.read r = some o) : load r h = .done o h := by
  unfold load
  rw [hr]

omit [Runtime] in
theorem update_done (hr : h.read r = some o) : update r f h = .done () (h.put r (f o)) := by
  unfold update
  rw [hr]

omit [Runtime] in
theorem new_done : Objects.new h = .done h.length (h.alloc .empty) := rfl

omit [Runtime] in
theorem extend_done {dest src : Ref} {d s : JsObject} (hs : h.read src = some s)
    (hd : h.read dest = some d) :
    Objects.extend dest src h = .done dest (h.put dest (d.extend s)) := by
  unfold Objects.extend
  rw [bind_of_done (load_done hs), bind_of_done (update_done hd)]
  rfl

end Steps

/-! ## `normalizeQuery` -/

section Normalize

variable {h h' : Objects} {r : Ref} {o : JsObject} {pre suf : Props} {name : String}
  {v text e : Value}

/-! One turn of the loop, by what there is to do for the field. -/

theorem field_other (hr : h.read r = some o) (ho : o.props = pre ++ (name, v) :: suf)
    (hf : name ∉ viewFields) :
    ∃ o', o'.props = pre ++ suf ∧ normalizeField r name h = .done () (h.put r o') := by
  have hnd := o.nodup
  rw [ho] at hnd
  obtain ⟨hpre, hsuf⟩ := Assoc.middle_fresh hnd
  refine ⟨o.delete name, ?_, ?_⟩
  · show o.props.filter (fun p => p.1 ≠ name) = _
    rw [ho, Assoc.filter_middle hpre hsuf]
  · unfold normalizeField
    rw [if_pos hf]
    exact update_done hr

theorem field_value (ho : o.props = pre ++ (name, v) :: suf) :
    (Value.object o.props).getProperty name = v := by
  have hnd := o.nodup
  rw [ho] at hnd
  show (o.props.lookup name).getD .undefined = v
  rw [ho, Assoc.lookup_middle (Assoc.middle_fresh hnd).1]
  rfl

theorem field_json (hr : h.read r = some o) (ho : o.props = pre ++ (name, v) :: suf)
    (hf : name ∈ viewFields) (hj : name ∈ jsonFields) (ht : Runtime.jsonStringify v = .ok text) :
    ∃ o', o'.props = pre ++ (name, text) :: suf ∧
      normalizeField r name h = .done () (h.put r o') := by
  have hnd := o.nodup
  rw [ho] at hnd
  refine ⟨o.set name text, ?_, ?_⟩
  · show Assoc.set name text o.props = _
    rw [ho, Assoc.set_middle (Assoc.middle_fresh hnd).1]
  · unfold normalizeField
    rw [if_neg (not_not.mpr hf), if_pos hj, bind_of_done (load_done hr), field_value ho, ht]
    exact update_done hr

theorem field_throws (hr : h.read r = some o) (ho : o.props = pre ++ (name, v) :: suf)
    (hf : name ∈ viewFields) (hj : name ∈ jsonFields)
    (ht : Runtime.jsonStringify v = .error e) : normalizeField r name h = .refused h := by
  unfold normalizeField
  rw [if_neg (not_not.mpr hf), if_pos hj, bind_of_done (load_done hr)]
  simp only [field_value ho, ht]
  rfl

theorem field_plain (hf : name ∈ viewFields) (hj : name ∉ jsonFields) :
    normalizeField r name h = .done () h := by
  unfold normalizeField
  rw [if_neg (not_not.mpr hf), if_neg hj]
  rfl

/-- What `normalizeQuery` leaves: one object normalised, the others as they were. -/
structure Normalizes (r : Ref) (o : JsObject) (h h' : Objects) : Prop where
  only : OnlyAt r h h'
  object : ∃ o', h'.read r = some o' ∧ o'.props = normalized o.props

/-- The loop over the last fields of an object. -/
abbrev fields (r : Ref) (i : Nat) (suf : Props) : Prog Objects Unit :=
  Prog.each (fun _ q => normalizeField r q) i (Assoc.keys suf)

/-- What the loop leaves: the fields before stay, the rest is normalised as far as that goes. -/
structure FieldsLeave (r : Ref) (i : Nat) (pre suf : Props) (h h' : Objects) : Prop where
  object : ∃ o', h'.read r = some o' ∧ o'.props = pre ++ normalized suf
  only : OnlyAt r h h'
  done : Encodable suf → fields r i suf h = .done () h'
  refused : ¬ Encodable suf → fields r i suf h = .refused h'

/-- The loop goes on after a turn that is done. -/
theorem FieldsLeave.cons {i : Nat} {done : Props} {h₁ : Objects}
    (hturn : normalizeField r name h = .done () h₁) (honly : OnlyAt r h h₁)
    (hiff : Encodable ((name, v) :: suf) ↔ Encodable suf)
    (hnorm : done ++ normalized suf = pre ++ normalized ((name, v) :: suf))
    (hrest : FieldsLeave r (i + 1) done suf h₁ h') :
    FieldsLeave r i pre ((name, v) :: suf) h h' := by
  have hstep : fields r i ((name, v) :: suf) h = fields r (i + 1) suf h₁ := bind_of_done hturn
  obtain ⟨o', ho', hprops⟩ := hrest.object
  refine ⟨⟨o', ho', hprops.trans hnorm⟩, honly.trans hrest.only, fun he => ?_, fun hn => ?_⟩
  · rw [hstep]
    exact hrest.done (hiff.mp he)
  · rw [hstep]
    exact hrest.refused fun he => hn (hiff.mpr he)

/-- **The loop**, by what there is to do for its first field. -/
theorem fields_run (hr : h.read r = some o) (ho : o.props = pre ++ suf) (i : Nat) :
    ∃ h', FieldsLeave r i pre suf h h' := by
  induction suf generalizing h o pre i with
  | nil =>
    refine ⟨h, ⟨o, hr, ho⟩, .refl r h, fun _ => rfl, fun hn => ?_⟩
    exact absurd encodable_nil hn
  | cons p suf ih =>
    obtain ⟨name, v⟩ := p
    have hlt := Blocks.lt_of_read hr
    by_cases hf : name ∈ viewFields
    swap
    · obtain ⟨o₁, ho₁, hturn⟩ := field_other hr ho hf
      obtain ⟨h', hrest⟩ := ih (Blocks.read_put_self hlt) ho₁ (i + 1)
      refine ⟨h', hrest.cons hturn (onlyAt_put o₁) (encodable_other hf) ?_⟩
      rw [normalized_other hf]
    by_cases hj : name ∈ jsonFields
    swap
    · obtain ⟨h', hrest⟩ := ih hr (ho.trans (List.append_cons ..)) (i + 1)
      refine ⟨h', hrest.cons (field_plain hf hj) (.refl r h)
        (encodable_map (normalizeQuery_plain hf hj)) ?_⟩
      rw [normalized_plain hf hj]
      exact (List.append_cons ..).symm
    cases ht : Runtime.jsonStringify v with
    | error e =>
      refine ⟨h, ⟨o, hr, ?_⟩, .refl r h, fun he => ?_, fun _ => ?_⟩
      · rw [normalized_throws hf hj ht]
        exact ho
      · exact absurd he (not_encodable hf hj ht)
      · exact bind_of_refused (field_throws hr ho hf hj ht)
    | ok text =>
      obtain ⟨o₁, ho₁, hturn⟩ := field_json hr ho hf hj ht
      obtain ⟨h', hrest⟩ := ih (Blocks.read_put_self hlt) (ho₁.trans (List.append_cons ..)) (i + 1)
      refine ⟨h', hrest.cons hturn (onlyAt_put o₁)
        (encodable_map (normalizeQuery_json hf hj ht)) ?_⟩
      rw [normalized_json hf hj ht]
      exact (List.append_cons ..).symm

theorem normalize_run (hr : h.read r = some o) :
    ∃ h', Normalizes r o h h' ∧
      (Encodable o.props → Objects.normalizeQuery r h = .done r h') ∧
      (¬ Encodable o.props → Objects.normalizeQuery r h = .refused h') := by
  obtain ⟨h', hl⟩ := @fields_run _ h r o [] o.props hr (List.nil_append _).symm 0
  refine ⟨h', ⟨hl.only, hl.object⟩, fun he => ?_, fun hn => ?_⟩
  · unfold Objects.normalizeQuery
    rw [bind_of_done (load_done hr), bind_of_done (hl.done he)]
    rfl
  · unfold Objects.normalizeQuery
    rw [bind_of_done (load_done hr), bind_of_refused (hl.refused hn)]

end Normalize

/-! ## The parameters of a request -/

section Override

variable {h h' : Objects} {base p : Ref} {b o : JsObject}

/-- Given parameters over stored ones. -/
def overridden (stored given : Props) : Props :=
  Couchnode.extend (Couchnode.extend [] stored) (normalized given)

theorem nodup_overridden (stored given : Props) :
    (Assoc.keys (overridden stored given)).Nodup :=
  Assoc.nodup_keys_writes (Assoc.nodup_keys_writes List.nodup_nil)

theorem lookup_override (hb : (Assoc.keys b.props).Nodup) (he : Encodable o.props)
    (name : String) : (overridden b.props o.props).lookup name =
      ((normalized o.props).lookup name).or (b.props.lookup name) :=
  lookup_overridden hb (he.nodup o.nodup) name

/-- **A fresh object takes both**; the stored ones were copied before the given ones were
    normalised, so it makes no difference whether they are the same object. -/
theorem override_run (hb : h.read base = some b) (hp : h.read p = some o) :
    ∃ h', Normalizes p o h h' ∧
      (Encodable o.props → override base p h = .done h.length h' ∧
        ∃ d, h'.read h.length = some d ∧ d.props = overridden b.props o.props) ∧
      (¬ Encodable o.props → override base p h = .refused h') := by
  have hplt := Blocks.lt_of_read hp
  let h₁ := h.alloc .empty
  let h₂ := h₁.put h.length (JsObject.empty.extend b)
  have hcopy : Objects.extend h.length base h₁ = .done h.length h₂ :=
    extend_done (Blocks.read_alloc hb) Blocks.read_alloc_new
  have hnew : h₂.read h.length = some (JsObject.empty.extend b) := by
    apply Blocks.read_put_self
    show h.length < (h.alloc .empty).length
    rw [Blocks.length_alloc]
    exact Nat.lt_succ_self _
  have hp₂ : h₂.read p = some o := by
    show Blocks.read (h₁.put h.length _) p = _
    rw [Blocks.read_put_ne (Nat.ne_of_lt hplt)]
    exact Blocks.read_alloc hp
  have honly₂ : OnlyAt p h h₂ := (onlyAt_alloc p _).then_new (Nat.le_refl _) (onlyAt_put _)
  obtain ⟨h₃, hnorm, hdone, hrefused⟩ := normalize_run hp₂
  have hstart (f : Ref → Prog Objects Ref) :
      (do
        let dest ← Objects.new
        let dest ← Objects.extend dest base
        f dest) h = f h.length h₂ :=
    (bind_of_done new_done).trans (bind_of_done hcopy)
  by_cases he : Encodable o.props
  · obtain ⟨o', hread, hprops⟩ := hnorm.object
    have hdest : h₃.read h.length = some (JsObject.empty.extend b) := by
      rw [hnorm.only.old h.length (Blocks.lt_of_read hnew) (Nat.ne_of_gt hplt)]
      exact hnew
    have hlast := extend_done hread hdest
    refine ⟨h₃.put h.length ((JsObject.empty.extend b).extend o'), ⟨?_, o', ?_, hprops⟩, ?_, ?_⟩
    · exact (honly₂.trans hnorm.only).then_new (Nat.le_refl _) (onlyAt_put _)
    · rw [Blocks.read_put_ne (Nat.ne_of_lt hplt)]
      exact hread
    · intro _
      refine ⟨?_, _, Blocks.read_put_self (Blocks.lt_of_read hdest), ?_⟩
      · unfold override
        rw [hstart, bind_of_done (hdone he)]
        exact hlast
      · show Couchnode.extend (Couchnode.extend [] b.props) o'.props = _
        rw [hprops]
        rfl
    · intro hn
      exact absurd he hn
  · refine ⟨h₃, ⟨honly₂.trans hnorm.only, hnorm.object⟩, fun h => absurd h he, fun _ => ?_⟩
    unfold override
    rw [hstart]
    exact bind_of_refused (hrefused he)

end Override

/-! ## The calls -/

section Calls

variable {h h' : Objects} {p : Ref} {b o : JsObject} {vq : QueryObject} {ddoc name : String}

omit [Runtime] in
/-- What was there is still there. -/
theorem OnlyAt.read {q : Ref} {c : JsObject} (honly : OnlyAt p h h') (hq : h.read q = some c)
    (hne : q ≠ p) : h'.read q = some c := by
  rw [honly.old q (Blocks.lt_of_read hq) hne]
  exact hq

theorem Normalizes.read {q : Ref} {c : JsObject} (hn : Normalizes p o h h')
    (hq : h.read q = some c) : ∃ c', h'.read q = some c' := by
  by_cases hqp : q = p
  · obtain ⟨o', ho', _⟩ := hn.object
    rw [hqp]
    exact ⟨o', ho'⟩
  · exact ⟨c, hn.only.read hq hqp⟩

theorem request_done {q : Ref} (hq : h.read q = some o) (stored : Props) :
    vq.request q h = .done ((vq.at stored).request o.props) h := by
  unfold QueryObject.request
  rw [bind_of_done (load_done hq)]
  rfl

theorem create_run (hp : h.read p = some o) :
    ∃ h', Normalizes p o h h' ∧
      (Encodable o.props → QueryObject.create ddoc name p h =
        .done { ddoc := ddoc, name := name, q := p } h') ∧
      (¬ Encodable o.props → QueryObject.create ddoc name p h = .refused h') := by
  obtain ⟨h', hnorm, hdone, hrefused⟩ := normalize_run hp
  refine ⟨h', hnorm, fun he => ?_, fun hn => ?_⟩
  · unfold QueryObject.create
    rw [bind_of_done (hdone he)]
    rfl
  · exact bind_of_refused (hrefused hn)

theorem query_run (hb : h.read vq.q = some b) (hp : h.read p = some o) :
    ∃ h', Normalizes p o h h' ∧
      (Encodable o.props → vq.query p h =
        .done ((vq.at b.props).request (overridden b.props o.props)) h') ∧
      (¬ Encodable o.props → vq.query p h = .refused h') := by
  obtain ⟨h', hnorm, hdone, hrefused⟩ := override_run hb hp
  refine ⟨h', hnorm, fun he => ?_, fun hn => ?_⟩
  · obtain ⟨hrun, d, hd, hprops⟩ := hdone he
    unfold QueryObject.query
    rw [bind_of_done hrun, request_done hd b.props, hprops]
  · exact bind_of_refused (hrefused hn)

/-- What `clone` makes: a query object of its own object. -/
structure Cloned (vq : QueryObject) (b o : JsObject) (h h' : Objects) (newq : QueryObject) : Prop
    where
  ddoc : newq.ddoc = vq.ddoc
  name : newq.name = vq.name
  fresh : h.length ≤ newq.q
  object : ∃ d, h'.read newq.q = some d ∧ d.props = overridden b.props o.props

theorem clone_run (hb : h.read vq.q = some b) (hp : h.read p = some o) :
    ∃ h', Normalizes p o h h' ∧
      (Encodable o.props → ∃ newq, vq.clone p h = .done newq h' ∧ Cloned vq b o h h' newq) ∧
      (¬ Encodable o.props → vq.clone p h = .refused h') := by
  -- the object of the new query is made and normalised, and then it is not used
  obtain ⟨h₁, hempty, hcreate, _⟩ :=
    @create_run _ (h.alloc .empty) h.length .empty vq.ddoc vq.name Blocks.read_alloc_new
  have hcreate := hcreate encodable_nil
  have honly (q : Ref) : OnlyAt q h h₁ :=
    (onlyAt_alloc q _).then_new (Nat.le_refl _) hempty.only
  have hold {q : Ref} {c : JsObject} (hq : h.read q = some c) : h₁.read q = some c :=
    (honly (q + 1)).read hq (Nat.ne_of_lt (Nat.lt_succ_self q))
  obtain ⟨h', hnorm, hdone, hrefused⟩ := override_run (hold hb) (hold hp)
  refine ⟨h', ⟨(honly p).trans hnorm.only, hnorm.object⟩, fun he => ?_, fun hn => ?_⟩
  · obtain ⟨hrun, d, hd, hprops⟩ := hdone he
    refine ⟨{ ddoc := vq.ddoc, name := vq.name, q := h₁.length }, ?_, rfl, rfl, (honly p).grew,
      d, hd, hprops⟩
    unfold QueryObject.clone
    rw [bind_of_done new_done, bind_of_done hcreate, bind_of_done hrun]
    rfl
  · unfold QueryObject.clone
    rw [bind_of_done new_done, bind_of_done hcreate]
    exact bind_of_refused (hrefused hn)

/-- The query of a first page, out of the parameters for it. -/
def firstQuery (q : Props) : Props :=
  incLimit (if (limitOf q).isNullish then forceSet "limit" ViewQuery.defaultLimit q else q)

/-- What `setLimit` leaves: the default limit in both objects, if there was none. -/
theorem setLimit_run {q : Ref} {d : JsObject} (hq : h.read q = some d)
    (hb : h.read vq.q = some b) (hne : vq.q ≠ q) :
    ∃ h' d', vq.setLimit q h = .done () h' ∧ h'.read q = some d' ∧
      incLimit d'.props = firstQuery d.props ∧ h.length = h'.length ∧
      ∀ r, r ≠ q → h'.read r =
        if r = vq.q ∧ (limitOf d.props).isNullish = true then
          some (b.set "limit" ViewQuery.defaultLimit)
        else h.read r := by
  have hlimit : limit q h = .done (limitOf d.props) h := by
    unfold limit
    rw [bind_of_done (load_done hq)]
    rfl
  unfold QueryObject.setLimit firstQuery
  rw [bind_of_done hlimit]
  cases hnull : (limitOf d.props).isNullish with
  | false =>
    refine ⟨h, d, rfl, hq, rfl, rfl, fun r _ => ?_⟩
    rw [if_neg]
    rintro ⟨_, hn⟩
    cases hn
  | true =>
    let d' := d.set "limit" ViewQuery.defaultLimit
    let b' := b.set "limit" ViewQuery.defaultLimit
    have hb' : (h.put q d').read vq.q = some b := by
      rw [Blocks.read_put_ne hne]
      exact hb
    refine ⟨(h.put q d').put vq.q b', d', ?_, ?_, rfl, ?_, fun r hr => ?_⟩
    · show (update q _ >>= _) h = _
      rw [bind_of_done (update_done hq)]
      exact update_done hb'
    · rw [Blocks.read_put_ne (Ne.symm hne)]
      exact Blocks.read_put_self (Blocks.lt_of_read hq)
    · rw [Blocks.length_put, Blocks.length_put]
    · by_cases hrq : r = vq.q
      · rw [if_pos ⟨hrq, rfl⟩, hrq]
        exact Blocks.read_put_self (Blocks.lt_of_read hb')
      · rw [if_neg (fun hand => hrq hand.1), Blocks.read_put_ne hrq, Blocks.read_put_ne hr]

theorem firstPage_run (hb : h.read vq.q = some b) (hp : h.read p = some o) :
    ∃ h₁, Normalizes p o h h₁ ∧
      (Encodable o.props → ∃ h', vq.firstPage p h = .done
          ((vq.at b.props).request (firstQuery (overridden b.props o.props))) h' ∧
        h₁.length ≤ h'.length ∧ ∀ r, r < h.length → h'.read r =
          if r = vq.q ∧ (limitOf (overridden b.props o.props)).isNullish = true then
            (h₁.read r).map (JsObject.set "limit" ViewQuery.defaultLimit)
          else h₁.read r) ∧
      (¬ Encodable o.props → vq.firstPage p h = .refused h₁) := by
  obtain ⟨h₁, hnorm, hdone, hrefused⟩ := override_run hb hp
  refine ⟨h₁, hnorm, fun he => ?_, fun hn => bind_of_refused (hrefused hn)⟩
  obtain ⟨hrun, d, hd, hprops⟩ := hdone he
  obtain ⟨b₁, hb₁⟩ := hnorm.read hb
  have hne : vq.q ≠ h.length := Nat.ne_of_lt (Blocks.lt_of_read hb)
  obtain ⟨h₂, d₂, hset, hd₂, hinc, hlen, hold⟩ := setLimit_run hd hb₁ hne
  have hlimit : limit h.length h₂ = .done (limitOf d₂.props) h₂ := by
    unfold limit
    rw [bind_of_done (load_done hd₂)]
    rfl
  let d₃ := d₂.set "limit" (limitOf d₂.props).addOne
  have hd₃ : (h₂.put h.length d₃).read h.length = some d₃ :=
    Blocks.read_put_self (Blocks.lt_of_read hd₂)
  have hfirst : d₃.props = firstQuery (overridden b.props o.props) := by
    rw [← hprops]
    exact hinc
  refine ⟨h₂.put h.length d₃, ?_, ?_, fun r hr => ?_⟩
  · unfold QueryObject.firstPage
    rw [bind_of_done hrun, bind_of_done hset, bind_of_done hlimit,
      bind_of_done (update_done hd₂), request_done hd₃ b.props, hfirst]
  · rw [Blocks.length_put, hlen]
  · have hrn : r ≠ h.length := Nat.ne_of_lt hr
    rw [Blocks.read_put_ne hrn, hold r hrn, hprops]
    by_cases hand : r = vq.q ∧ (limitOf (overridden b.props o.props)).isNullish = true
    · rw [if_pos hand, if_pos hand, hand.1, hb₁]
      rfl
    · rw [if_neg hand, if_neg hand]

end Calls

/-! ## Any call -/

section AnyCall

variable {h : Objects} {p : Ref} {b o : JsObject} {c : ViewCall}

/-- The query object a call is made on is there. -/
def HasReceiver (h : Objects) (c : ViewCall) : Prop :=
  ∀ vq, c.receiver = some vq → ∃ b, h.read vq.q = some b

/-- The parameters the query object of a call keeps. -/
def storedBy (h : Objects) (c : ViewCall) : Props :=
  (c.receiver.bind fun vq => h.read vq.q).elim [] JsObject.props

/-- The request a call has sent, or the one for the query it has made. -/
def asked : Outcome Objects ViewCall.Result → Option ViewRequest
  | .done (.sent r) _ => some r
  | .done (.made vq) h => (h.read vq.q).map fun o => (vq.at o.props).request o.props
  | _ => none

/-- The objects a call leaves. -/
def left : Outcome Objects ViewCall.Result → Objects
  | .done _ h | .refused h => h
  | .fault => []

/-- What the functions on values say of a call. -/
def requestOf (c : ViewCall) (stored ps : Props) : Option ViewRequest :=
  match c with
  | .view ddoc name => (ViewQuery.new ddoc name ps).toOption.map fun vq => vq.request vq.q
  | .clone vq => ((vq.at stored).clone ps).toOption.map fun vq => vq.request vq.q
  | .query vq => ((vq.at stored).query ps).toOption
  | .firstPage vq =>
    match (vq.at stored).firstPage ps with
    | .ok (_, .request _ q _) => some ((vq.at stored).request q)
    | _ => none

/-- The parameters of a request are those given, over those stored but for a view. -/
def parametersOf (c : ViewCall) (stored ps : Props) : Props :=
  match c with
  | .view _ _ => normalized ps
  | .clone _ | .query _ => overridden stored ps
  | .firstPage _ => firstQuery (overridden stored ps)

/-- The path of a request. -/
def pathOf : ViewCall → ViewQuery
  | .view ddoc name => { ddoc := ddoc, name := name, q := [] }
  | .clone vq | .query vq | .firstPage vq => vq.at []

theorem firstPage_value {vq : ViewQuery} {ps : Props} (he : Encodable ps) :
    ∃ vq', vq.firstPage ps = .ok (vq', .request {} (firstQuery (overridden vq.q ps))
      (.startPage (limitOf (firstQuery (overridden vq.q ps))))) := by
  unfold ViewQuery.firstPage firstQuery overridden
  rw [he.eq]
  cases hnull : (limitOf (Couchnode.extend (Couchnode.extend [] vq.q) (normalized ps))).isNullish
    with
  | true =>
    refine ⟨{ vq with q := forceSet "limit" ViewQuery.defaultLimit vq.q }, ?_⟩
    show Except.ok _ = _
    rw [hnull]
    rfl
  | false =>
    refine ⟨vq, ?_⟩
    show Except.ok _ = _
    rw [hnull]
    rfl

theorem requestOf_done {c : ViewCall} {stored ps : Props} (he : Encodable ps) :
    requestOf c stored ps = some ((pathOf c).request (parametersOf c stored ps)) := by
  have hq := he.eq
  cases c with
  | view ddoc name =>
    show (ViewQuery.new ddoc name ps).toOption.map _ = _
    unfold ViewQuery.new
    rw [hq]
    rfl
  | clone vq =>
    show ((vq.at stored).clone ps).toOption.map _ = _
    unfold ViewQuery.clone
    rw [hq]
    rfl
  | query vq =>
    show ((vq.at stored).query ps).toOption = _
    unfold ViewQuery.query
    rw [hq]
    rfl
  | firstPage vq =>
    obtain ⟨vq', hrun⟩ := @firstPage_value _ (vq.at stored) ps he
    unfold requestOf
    simp only [hrun]
    rfl

theorem requestOf_none {c : ViewCall} {stored ps : Props} (he : ¬ Encodable ps) :
    requestOf c stored ps = none := by
  obtain ⟨e, hq⟩ := normalize_error he
  cases c with
  | view ddoc name =>
    show (ViewQuery.new ddoc name ps).toOption.map _ = _
    unfold ViewQuery.new
    rw [hq]
    rfl
  | clone vq =>
    show ((vq.at stored).clone ps).toOption.map _ = _
    unfold ViewQuery.clone
    rw [hq]
    rfl
  | query vq =>
    show ((vq.at stored).query ps).toOption = _
    unfold ViewQuery.query
    rw [hq]
    rfl
  | firstPage vq =>
    unfold requestOf ViewQuery.firstPage
    rw [hq]
    rfl

/-- A first page writes the default limit to this object. -/
def Limits (h : Objects) (c : ViewCall) (ps : Props) (r : Ref) : Prop :=
  Encodable ps ∧ (∃ vq, c = .firstPage vq ∧ r = vq.q) ∧
    (limitOf (overridden (storedBy h c) ps)).isNullish = true

/-- What a call leaves of the objects there were: the parameters are normalised, and a first page
    may have written its limit. -/
structure CallLeaves (h : Objects) (c : ViewCall) (p : Ref) (o : JsObject) (h₁ h' : Objects) : Prop
    where
  normal : Normalizes p o h h₁
  grew : h₁.length ≤ h'.length
  limit : ∀ r, Limits h c o.props r →
    h'.read r = (h₁.read r).map (JsObject.set "limit" ViewQuery.defaultLimit)
  others : ∀ r, r < h.length → ¬ Limits h c o.props r → h'.read r = h₁.read r

theorem CallLeaves.plain {h₁ : Objects} (hn : Normalizes p o h h₁)
    (hc : Encodable o.props → ∀ vq, c ≠ .firstPage vq) : CallLeaves h c p o h₁ h₁ := by
  refine ⟨hn, Nat.le_refl _, fun r hl => ?_, fun _ _ _ => rfl⟩
  obtain ⟨he, ⟨vq, hvq, _⟩, _⟩ := hl
  exact absurd hvq (hc he vq)

omit [Runtime] in
theorem stored_eq {vq : QueryObject} (hc : c.receiver = some vq) (hb : h.read vq.q = some b) :
    storedBy h c = b.props := by
  unfold storedBy
  rw [hc, Option.bind_some, hb]
  rfl

/-- Every call normalises first, and stops there if `JSON.stringify` throws. -/
theorem call_stops (hp : h.read p = some o) (hc : HasReceiver h c) (he : ¬ Encodable o.props) :
    ∃ h₁, Normalizes p o h h₁ ∧ c.run p h = .refused h₁ := by
  cases c with
  | view ddoc name =>
    obtain ⟨h₁, hn, _, hrefused⟩ := @create_run _ h p o ddoc name hp
    exact ⟨h₁, hn, bind_of_refused (hrefused he)⟩
  | clone vq =>
    obtain ⟨b, hb⟩ := hc vq rfl
    obtain ⟨h₁, hn, _, hrefused⟩ := clone_run hb hp
    exact ⟨h₁, hn, bind_of_refused (hrefused he)⟩
  | query vq =>
    obtain ⟨b, hb⟩ := hc vq rfl
    obtain ⟨h₁, hn, _, hrefused⟩ := query_run hb hp
    exact ⟨h₁, hn, bind_of_refused (hrefused he)⟩
  | firstPage vq =>
    obtain ⟨b, hb⟩ := hc vq rfl
    obtain ⟨h₁, hn, _, hrefused⟩ := firstPage_run hb hp
    exact ⟨h₁, hn, bind_of_refused (hrefused he)⟩

/-- If it does not, the call asks for what its parameters say. -/
theorem call_asks (hp : h.read p = some o) (hc : HasReceiver h c) (he : Encodable o.props) :
    asked (c.run p h) =
        some ((pathOf c).request (parametersOf c (storedBy h c) o.props)) ∧
      ∃ h₁, CallLeaves h c p o h₁ (left (c.run p h)) := by
  cases c with
  | view ddoc name =>
    obtain ⟨h₁, hn, hdone, _⟩ := @create_run _ h p o ddoc name hp
    obtain ⟨o', ho', hprops⟩ := hn.object
    have hrun : (ViewCall.view ddoc name).run p h = .done (.made ⟨ddoc, name, p⟩) h₁ :=
      bind_of_done (hdone he)
    rw [hrun]
    refine ⟨?_, h₁, .plain hn fun _ _ hf => by cases hf⟩
    show (h₁.read p).map _ = _
    rw [ho', Option.map_some, hprops]
    rfl
  | clone vq =>
    obtain ⟨b, hb⟩ := hc vq rfl
    obtain ⟨h₁, hn, hdone, _⟩ := clone_run hb hp
    obtain ⟨newq, hclone, hnew⟩ := hdone he
    obtain ⟨d, hd, hprops⟩ := hnew.object
    have hrun : (ViewCall.clone vq).run p h = .done (.made newq) h₁ := bind_of_done hclone
    rw [hrun, stored_eq rfl hb]
    refine ⟨?_, h₁, .plain hn fun _ _ hf => by cases hf⟩
    show (h₁.read newq.q).map _ = _
    rw [hd, Option.map_some, hprops]
    unfold pathOf QueryObject.at ViewQuery.request
    rw [hnew.ddoc, hnew.name]
    rfl
  | query vq =>
    obtain ⟨b, hb⟩ := hc vq rfl
    obtain ⟨h₁, hn, hdone, _⟩ := query_run hb hp
    have hrun : (ViewCall.query vq).run p h = .done (.sent _) h₁ := bind_of_done (hdone he)
    rw [hrun, stored_eq rfl hb]
    exact ⟨rfl, h₁, .plain hn fun _ _ hf => by cases hf⟩
  | firstPage vq =>
    obtain ⟨b, hb⟩ := hc vq rfl
    obtain ⟨h₁, hn, hdone, _⟩ := firstPage_run hb hp
    obtain ⟨h', hpage, hlen, hold⟩ := hdone he
    have hrun : (ViewCall.firstPage vq).run p h = .done (.sent _) h' := bind_of_done hpage
    have hstored : storedBy h (.firstPage vq) = b.props := stored_eq rfl hb
    rw [hrun, hstored]
    refine ⟨rfl, h₁, hn, hlen, fun r hl => ?_, fun r hr hl => ?_⟩
    · obtain ⟨_, ⟨vq', hvq, rfl⟩, hnull⟩ := hl
      cases hvq
      rw [hstored] at hnull
      exact (hold _ (Blocks.lt_of_read hb)).trans (if_pos ⟨rfl, hnull⟩)
    · apply (hold r hr).trans (if_neg _)
      rintro ⟨hrq, hnull⟩
      apply hl
      refine ⟨he, ⟨vq, rfl, hrq⟩, ?_⟩
      rw [hstored]
      exact hnull

/-- **The objects do what the values say**: a call asks for what the function on the contents asks
    for, and leaves the other objects alone. -/
theorem call_run (hp : h.read p = some o) (hc : HasReceiver h c) :
    asked (c.run p h) = requestOf c (storedBy h c) o.props ∧
      ∃ h₁, CallLeaves h c p o h₁ (left (c.run p h)) := by
  by_cases he : Encodable o.props
  · rw [requestOf_done he]
    exact call_asks hp hc he
  · obtain ⟨h₁, hn, hrun⟩ := call_stops hp hc he
    rw [requestOf_none he, hrun]
    exact ⟨rfl, h₁, .plain hn fun h => absurd h he⟩

end AnyCall

end Proof

end Couchnode
