import Couchnode.Js.Connection
import Couchnode.V8.Runtime
import Mathlib.Data.List.Nodup

/-!
# What the methods of `Connection` hand to the native layer

The methods come in two wirings. A single call makes an object with one property, the key, and
gives the interceptor that object to look its options up in (`invoke_single`); a multi call
passes its own options on (`invoke_multi`). `interceptEndure_key` and `interceptEndure_null` are
what the interceptor makes of the two: it finds the options of a single call only when the key
is truthy.

`endureKv_pairs` is what a spooled interceptor submits.
-/

set_option autoImplicit false

namespace Couchnode

/-- The keys a submission covers, each with its CAS. -/
def EndureCall.pairs [Runtime] (e : EndureCall) : List (String × Value) :=
  e.kv.map fun p => (p.1, p.2.getProperty NameMap.cas)

namespace Proof

open Connection

variable [Runtime]

/-! ## Options -/

section Options

variable {options kParams : Props} {name : String}

/-- What the interceptor asks of the options of a call. -/
def endureNames : List String := [NameMap.persistTo, NameMap.replicateTo, NameMap.spooled]

/-- Durability is asked for. -/
def Durable (options : Value) : Bool :=
  (options.getProperty NameMap.persistTo).truthy ||
    (options.getProperty NameMap.replicateTo).truthy

/-- The options `_interceptEndure` copies. -/
def endureOptions (options : Value) (isDelete : Bool) : Props :=
  [(NameMap.persistTo, options.getProperty NameMap.persistTo),
   (NameMap.replicateTo, options.getProperty NameMap.replicateTo),
   (NameMap.spooled, options.getProperty NameMap.spooled),
   (NameMap.isDelete, .bool isDelete)]

/-- The two option objects say the same about durability. -/
def SameEndure (ps qs : Props) : Prop :=
  ∀ name ∈ endureNames, (Value.object ps).getProperty name = (Value.object qs).getProperty name

omit [Runtime] in
theorem endureNames_ne {name : String} (h : name ∈ endureNames) :
    name ≠ NameMap.value ∧ name ≠ NameMap.arithOffset ∧ (name = NameMap.spooled ∨
      name ≠ NameMap.spooled) := by
  simp only [endureNames, List.mem_cons, List.not_mem_nil, or_false] at h
  rcases h with rfl | rfl | rfl <;> decide

theorem SameEndure.durable {ps qs : Props} (h : SameEndure ps qs) :
    Durable (.object ps) = Durable (.object qs) := by
  unfold Durable
  rw [h NameMap.persistTo (by decide), h NameMap.replicateTo (by decide)]

/-- `_mergeParams` copies every option but `value`. -/
theorem mergeInto_lookup (hnd : (Assoc.keys options).Nodup) (hname : name ≠ NameMap.value) :
    (mergeInto kParams (.object options)).lookup name =
      (options.lookup name).or (kParams.lookup name) := by
  show (Assoc.writes (options.filter fun p => decide (p.1 ≠ NameMap.value)) kParams).lookup name = _
  rw [Assoc.lookup_writes, Assoc.lookup_reverse (Assoc.nodup_keys_filter hnd),
    Assoc.lookup_filter (p := fun k => decide (k ≠ NameMap.value)) (by simpa using hname)]

theorem mergeInto_endure (kParams : Props) (hnd : (Assoc.keys options).Nodup)
    (hk : ∀ name ∈ endureNames, kParams.lookup name = none) :
    SameEndure (mergeInto kParams (.object options)) options := by
  intro name hname
  show ((mergeInto kParams (.object options)).lookup name).getD _ = (options.lookup name).getD _
  rw [mergeInto_lookup hnd (endureNames_ne hname).1, hk name hname, Option.or_none]

theorem arithParams_endure (hnd : (Assoc.keys options).Nodup) (dfl : Int) :
    SameEndure (arithParams dfl (.object options)) options := by
  intro name hname
  rw [← mergeInto_endure [] hnd (fun _ _ => rfl) name hname]
  show ((arithParams dfl (.object options)).lookup name).getD _ = _
  unfold arithParams
  rw [Assoc.lookup_set_ne (endureNames_ne hname).2.1]
  rfl

/-- A multi call is spooled unless its options say otherwise. -/
def multiSpooled (options : Props) : Bool :=
  match options.lookup NameMap.spooled with
  | some v => v.truthy
  | none => true

/-- The options of a multi call, with `spooled` in them. -/
theorem multiOptions_object (hnd : (Assoc.keys options).Nodup) :
    ∃ ps, multiOptions (.object options) = .object ps ∧ Durable (.object ps) = Durable (.object options) ∧
      ∃ v, ps.lookup NameMap.spooled = some v ∧ v.truthy = multiSpooled options := by
  have hinherited : inheritedProperty NameMap.spooled = none := by decide
  have hget : (Value.object options).getRealNamedProperty NameMap.spooled =
      options.lookup NameMap.spooled := by
    show (options.lookup NameMap.spooled).or _ = _
    rw [hinherited, Option.or_none]
  unfold multiOptions multiSpooled
  rw [hget]
  cases hs : options.lookup NameMap.spooled with
  | some v => exact ⟨options, rfl, rfl, v, hs, rfl⟩
  | none =>
    refine ⟨_, rfl, ?_, .bool true, ?_, rfl⟩
    · have hsame (name : String) (hne : name ≠ NameMap.spooled) :
          (Value.object (Assoc.writes options [(NameMap.spooled, .bool true)])).getProperty name =
            (Value.object options).getProperty name := by
        have hne' : (name == NameMap.spooled) = false := by simpa using hne
        show ((Assoc.writes options _).lookup name).getD _ = (options.lookup name).getD _
        rw [Assoc.lookup_writes, Assoc.lookup_reverse hnd]
        simp [List.lookup_cons, hne']
      unfold Durable
      simp only [Value.entries]
      rw [hsame _ (by decide), hsame _ (by decide)]
    · show (Assoc.writes options _).lookup NameMap.spooled = _
      rw [Assoc.lookup_writes, Assoc.lookup_reverse hnd, hs]
      rfl

end Options

/-! ## The two wirings -/

section Wiring

variable {m : Mutation} {subject value callback : Value} {options : Props}

/-- A single call passes one key, with options that carry those of the call. -/
theorem invoke_single (subject value callback : Value) (hm : m.isMulti = false)
    (hnd : (Assoc.keys options).Nodup) :
    ∃ params, SameEndure params options ∧
      let kv := Value.object [(subject.toName, .object params)]
      let call := m.invoke (m.argList subject value (.object options) callback)
      (call.args = [kv, .null] ∨ call.args = [kv]) ∧
        call.callback = interceptEndure subject kv (.object []) m.isRemoval callback := by
  cases m with
  | set | add | replace | append | prepend =>
    refine ⟨_, mergeInto_endure [(NameMap.value, value)] hnd ?_, .inl rfl, rfl⟩
    intro name hname
    have hne : (name == NameMap.value) = false := by simpa using (endureNames_ne hname).1
    simp [List.lookup_cons, hne]
  | incr => exact ⟨_, arithParams_endure hnd 1, .inl rfl, rfl⟩
  | decr => exact ⟨_, arithParams_endure hnd (-1), .inl rfl, rfl⟩
  | remove => exact ⟨_, mergeInto_endure [] hnd (fun _ _ => rfl), .inr rfl, rfl⟩
  | _ => cases hm

/-- A multi call passes what it was given, and says of a removal what it says of a store. -/
theorem invoke_multi (subject value options callback : Value) (hm : m.isMulti = true) :
    let call := m.invoke (m.argList subject value options callback)
    call.args = [subject, multiOptions options] ∧
      call.callback =
        interceptEndure .null subject (multiOptions options) false callback := by
  cases m with
  | setMulti | addMulti | replaceMulti | appendMulti | prependMulti | removeMulti =>
    exact ⟨rfl, rfl⟩
  | _ => cases hm

/-- The native methods behind the mutations. -/
def Mutates (k : Kind) : Prop := (∃ op, k = .store op) ∨ k = .arithmetic ∨ k = .delete

theorem invoke_mutates :
    Mutates (m.invoke (m.argList subject value (.object options) callback)).target := by
  cases m with
  | incr | decr => exact .inr (.inl rfl)
  | remove | removeMulti => exact .inr (.inr rfl)
  | _ => exact .inl ⟨_, rfl⟩

end Wiring

/-! ## The interceptor -/

section Interceptor

variable {key options callback : Value} {params : Props} {d : Bool}

/-- With one key, the options are found under it, if it is truthy. -/
theorem interceptEndure_key :
    interceptEndure key (.object [(key.toName, .object params)]) (.object []) d callback =
      if key.truthy && Durable (.object params) then
        .interceptor key (.object params) (endureOptions (.object params) d) callback
      else .user callback := by
  have hget : (Value.object [(key.toName, .object params)]).getProperty key.toName =
      .object params := by
    simp [Value.getProperty, Value.entries]
  unfold interceptEndure
  cases hkey : key.truthy with
  | false => rfl
  | true =>
    simp only [Value.isUndefined, Value.isNull, Bool.false_eq_true, if_false, Bool.not_false,
      Bool.and_self, if_true, hget, Bool.true_and]
    rw [← Bool.not_or]
    show (if (!Durable (.object params)) = true then _ else _) = _
    cases Durable (.object params) <;> rfl

/-- Without a key, the options of the call are used as they are. -/
theorem interceptEndure_null (hd : Durable (.object params) = true) :
    interceptEndure .null options (.object params) d callback =
      .interceptor .null (.object params) (endureOptions (.object params) d) callback := by
  unfold interceptEndure
  simp only [Value.isUndefined, Bool.false_eq_true, if_false, Value.truthy, Bool.false_and]
  rw [← Bool.not_or]
  show (if (!Durable (.object params)) = true then _ else _) = _
  rw [hd]
  rfl

end Interceptor

/-! ## What it submits -/

section Submit

/-- What a spooled interceptor makes of one result: nothing if it has an error. -/
def submitted (results : Value) (name : String) : Option (String × Value) :=
  let result := results.getProperty name
  if (result.getProperty NameMap.err).truthy then none
  else some (name, result.getProperty NameMap.cas)

theorem endureKv_pairs {results : Value} {options : Props} (hnd : results.propertyNames.Nodup) :
    EndureCall.pairs { kv := endureKv results, options := options } =
      results.propertyNames.filterMap (submitted results) := by
  let entry (name : String) : Option (String × Value) :=
    (submitted results name).map fun p => (p.1, .object [(NameMap.cas, p.2)])
  have hkv : endureKv results = Assoc.writes (results.propertyNames.filterMap entry) [] := by
    unfold endureKv
    congr 1
    refine List.filterMap_congr fun name _ => ?_
    simp only [entry, submitted]
    split <;> rfl
  have hkeys : (Assoc.keys (results.propertyNames.filterMap entry)).Nodup := by
    unfold Assoc.keys
    rw [List.map_filterMap]
    refine List.Nodup.filterMap ?_ hnd
    intro a a' b hb hb'
    simp only [entry, submitted, Option.map_map, Option.mem_def, Option.map_eq_some_iff] at hb hb'
    obtain ⟨p, hp, rfl⟩ := hb
    obtain ⟨q, hq, hqp⟩ := hb'
    split at hp <;> cases hp
    split at hq <;> cases hq
    exact hqp.symm
  unfold EndureCall.pairs
  rw [hkv, Assoc.writes_fresh (by simpa using hkeys), List.nil_append, List.map_filterMap]
  refine List.filterMap_congr fun name _ => ?_
  simp only [entry, Option.map_map]
  cases submitted results name with
  | none => rfl
  | some p =>
    obtain ⟨name, cas⟩ := p
    simp [Value.getProperty, Value.entries]

end Submit

end Proof

end Couchnode
