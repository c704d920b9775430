import Couchnode.Proof.Durability
import Couchnode.Proof.Precedence

/-!
# A call for many keys is many calls for one

Most methods come in two forms, for one key and for many. They do not share their way down: a
single store copies its options into those of its one key, a single get leaves them for the call,
and a multi call passes its `kv` on as it is. `batch_lowers` says that libcouchbase cannot tell: a
multi call asks it for what the single calls ask it for, one after the other, and is refused when
one of them is.

The options of a key are an object in both forms. What a multi call may say for all its keys is
how it reports and what durability it wants (`endureNames`); the rest does not reach the key if it
has options of its own (`forms_agree_iff`, `honoured_iff`).
-/

set_option autoImplicit false

namespace Couchnode

/-- The methods of `Connection` for one key that have a form for many. -/
inductive Pair where
  | get | lock | unlock | observe | remove | set | add | replace | append | prepend
  deriving DecidableEq

namespace Pair

/-- The native method behind both forms. -/
def kind : Pair → Kind
  | get => .get
  | lock => .lock
  | unlock => .unlock
  | observe => .observe
  | remove => .delete
  | set => .store .set
  | add => .store .add
  | replace => .store .replace
  | append => .store .append
  | prepend => .store .prepend

/-- The options of a key hold what is stored there. -/
def stores (p : Pair) : Bool :=
  match p.kind with
  | .store _ => true
  | _ => false

variable [Runtime]

/-- The call for one key. A store is given its value, which is `value` in the options of a `kv`;
    that the options still have it there makes no difference. -/
def one (p : Pair) (key : String) (options callback : Value) : NativeCall :=
  let value := options.getProperty NameMap.value
  match p with
  | get => Access.get.invoke [.string key, options, callback]
  | lock => Access.lock.invoke [.string key, options, callback]
  | unlock => Access.unlock.invoke [.string key, options, callback]
  | observe => Access.observe.invoke [.string key, options, callback]
  | remove => Mutation.remove.invoke [.string key, options, callback]
  | set => Mutation.set.invoke [.string key, value, options, callback]
  | add => Mutation.add.invoke [.string key, value, options, callback]
  | replace => Mutation.replace.invoke [.string key, value, options, callback]
  | append => Mutation.append.invoke [.string key, value, options, callback]
  | prepend => Mutation.prepend.invoke [.string key, value, options, callback]

/-- The call for many. -/
def many (p : Pair) (kv options callback : Value) : NativeCall :=
  match p with
  | get => Access.getMulti.invoke [kv, options, callback]
  | lock => Access.lockMulti.invoke [kv, options, callback]
  | unlock => Access.unlockMulti.invoke [kv, options, callback]
  | observe => Access.observeMulti.invoke [kv, options, callback]
  | remove => Mutation.removeMulti.invoke [kv, options, callback]
  | set => Mutation.setMulti.invoke [kv, options, callback]
  | add => Mutation.addMulti.invoke [kv, options, callback]
  | replace => Mutation.replaceMulti.invoke [kv, options, callback]
  | append => Mutation.appendMulti.invoke [kv, options, callback]
  | prepend => Mutation.prependMulti.invoke [kv, options, callback]

/-- What libcouchbase is called with. -/
def entry (p : Pair) : LcbEntry := p.kind.cls.entry (p.kind.cls.afterInit p.kind.cls.defaults) 0

end Pair

/-- A `kv`: the options of each key. -/
abbrev KeyOptions := List (String × Props)

namespace KeyOptions

/-- As an object. -/
def toValue (kv : KeyOptions) : Value := .object (kv.map fun e => (e.1, .object e.2))

/-- The keys are there once, and so are the options of each; a store has a value. -/
structure Proper (p : Pair) (kv : KeyOptions) : Prop where
  nonempty : kv ≠ []
  keys : (kv.map Prod.fst).Nodup
  options : ∀ e ∈ kv, (Assoc.keys e.2).Nodup
  values : p.stores = true → ∀ e ∈ kv, (e.2.lookup NameMap.value).isSome = true

end KeyOptions

namespace Proof

open Command ParamSlot Connection

variable [Runtime]

/-! ## Options that name nothing -/

section Quiet

variable {v : Value} {k : Kind} {O : Type}

/-- Nothing is found in the options but what the methods themselves ask for. -/
structure Bare (v : Value) : Prop where
  object : OptionsObject (some v)
  lacks : ∀ name, name ∉ endureNames → inheritedProperty name = none →
    optionOf (some v) name = none

theorem bare_null : Bare .null where
  object d hd _ := by
    cases hd
    rfl
  lacks _ _ _ := rfl

theorem bare_function (id : Nat) : Bare (.function id) where
  object d hd hobj := by
    cases hd
    cases hobj
  lacks _ _ _ := rfl

omit [Runtime] in
theorem object_options (ps : Props) : OptionsObject (some (.object ps)) := by
  intro d hd hobj
  cases hd
  cases hobj

/-- The options of a multi call that only names how it reports and its durability. -/
theorem bare_multi {g : Props} (hnd : (Assoc.keys g).Nodup)
    (hg : ∀ name ∈ Assoc.keys g, name ∈ endureNames) : Bare (multiOptions (.object g)) := by
  obtain ⟨ps, hps, hlook⟩ := multiOptions_lookup hnd
  rw [hps]
  refine ⟨object_options ps, fun name hname hproto => ?_⟩
  rw [optionOf_object hproto, hlook name fun h => hname (by rw [h]; decide),
    List.lookup_eq_none_iff]
  intro e he
  have hne : name ≠ e.1 := fun h => hname (h ▸ hg _ (List.mem_map_of_mem he))
  simpa using hne

/-- The slot has a name of its own: no method asks for it, and no object inherits it. -/
def Named (sp : ParamSlot O) : Prop :=
  sp.name ∉ endureNames ∧ inheritedProperty sp.name = none

/-- Slots none of which is named. -/
theorem Bare.parse (hv : Bare v) {specs : List (ParamSlot O)} (hspecs : ∀ sp ∈ specs, Named sp)
    (o : O) : parseAll (some v) specs o = .ok o := by
  rw [parseAll_eq hv.object]
  refine (parseWith_congr (fun sp hsp => ?_) o).trans (parseWith_none specs o)
  exact hv.lacks _ (hspecs sp hsp).1 (hspecs sp hsp).2

omit [Runtime] in
theorem named_get : ∀ sp ∈ GetOptions.specs, Named sp := by
  intro sp hsp
  simp only [GetOptions.specs, List.mem_cons, List.not_mem_nil, or_false] at hsp
  rcases hsp with rfl | rfl | rfl <;> exact ⟨by decide, by decide⟩

omit [Runtime] in
theorem named_store : ∀ sp ∈ StoreOptions.specs, Named sp := by
  intro sp hsp
  simp only [StoreOptions.specs, List.mem_cons, List.not_mem_nil, or_false] at hsp
  rcases hsp with rfl | rfl | rfl | rfl | rfl <;> exact ⟨by decide, by decide⟩

omit [Runtime] in
theorem named_unlock : ∀ sp ∈ UnlockOptions.specs, Named sp := by
  intro sp hsp
  rw [List.mem_singleton.mp hsp]
  exact ⟨by decide, by decide⟩

theorem named_hashkey : ∀ sp ∈ hashkeySlots, Named sp := by
  intro sp hsp
  rw [List.mem_singleton.mp hsp]
  exact show NameMap.hashkey ∉ endureNames ∧ inheritedProperty NameMap.hashkey = none by decide

/-- What the options of a call say for all classes: how it reports is never wrong, and the hashkey
    is read as it is for one key. -/
theorem common_hashkey (hv : OptionsObject (some v)) :
    ∃ spooled, (parseAll (some v) commonSlots {}).toOption =
      (parseAll (some v) hashkeySlots { v := none }).toOption.map fun slot =>
        { isSpooled := spooled, globalHashkey := slot } := by
  have hhash (spooled : Slot Bool) :
      (parseWith (optionOf (some v)) [.field NameMap.hashkey (·.globalHashkey)
          (fun o s => { o with globalHashkey := s }) StringOption.parseValue]
        ({ isSpooled := spooled } : CommonOptions)).toOption =
      (parseWith (optionOf (some v)) hashkeySlots { v := none }).toOption.map fun slot =>
        { isSpooled := spooled, globalHashkey := slot } := by
    unfold hashkeySlots parseWith parseWith
    simp only [ParamSlot.field, id_eq]
    cases optionOf (some v) NameMap.hashkey with
    | none => rfl
    | some x =>
      simp only
      cases StringOption.parseValue x { v := none } <;> rfl
  rw [parseAll_eq hv, parseAll_eq hv]
  cases hs : optionOf (some v) NameMap.spooled with
  | none =>
    refine ⟨{ v := false }, ?_⟩
    rw [← hhash { v := false }, commonSlots, parseWith]
    simp only [ParamSlot.field, hs]
  | some x =>
    refine ⟨{ v := x.truthy, status := .found }, ?_⟩
    rw [← hhash { v := x.truthy, status := .found }, commonSlots, parseWith]
    simp only [ParamSlot.field, hs, BooleanOption.parseValue]

end Quiet

/-! ## Headers that say nothing -/

section Headers

variable {O : Type} {cls : CommandClass O} {args : List Value} {hd : Header O} {p : Pair} {id : Nat}

/-- A header that says nothing for all keys. -/
structure BareHeader (cls : CommandClass O) (args : List Value) (hd : Header O) : Prop where
  keys : hd.keys = KeysInfo.setKeys (arg args 0)
  hashkey : hd.globalHashkey.isFound = false
  options : hd.globalOptions = cls.afterInit cls.defaults

theorem bare_header (hspecs : ∀ specs, cls.params = some specs → ∀ sp ∈ specs, Named sp)
    (hv : Bare (arg args 1)) (hcb : lastArg args = .function id) :
    ∃ hd, header cls args = some hd ∧ BareHeader cls args hd := by
  have hopts : callOptions cls args = some cls.defaults := by
    unfold callOptions
    cases hp : cls.params with
    | none => rfl
    | some specs =>
      simp only [hv.parse (hspecs specs hp)]
      rfl
  obtain ⟨spooled, hcommon⟩ := common_hashkey hv.object
  rw [hv.parse named_hashkey] at hcommon
  have hslot : (CallableOption.parseValue (.function id) { v := none }).toOption =
      some { v := some (.function id), status := .found } := rfl
  unfold header
  rw [hopts, hcb, hslot, hcommon]
  exact ⟨_, rfl, rfl, rfl, rfl⟩

theorem pair_named (p : Pair) :
    ∀ specs, p.kind.cls.params = some specs → ∀ sp ∈ specs, Named sp := by
  intro specs hp
  cases p with
  | get | lock => cases hp; exact named_get
  | unlock | remove => cases hp; exact named_unlock
  | observe => cases hp
  | set | add | replace | append | prepend => cases hp; exact named_store

omit [Runtime] in
theorem pair_byKey (p : Pair) : ByKey p.kind := by
  cases p <;> exact ⟨nofun, nofun⟩

/-- A call of one key comes to the request of that key. -/
theorem call_one {k : Kind} {item : Option Value × Option Value}
    (hkeys : (KeysInfo.setKeys (arg args 0)).items = [item]) :
    Command.call k args = (header k.cls args).bind fun hd =>
      (itemRequest k.cls k.request hd item).map fun req =>
        { entry := k.cls.entry hd.globalOptions 0, cmds := [req] } := by
  unfold Command.call
  cases hh : header k.cls args with
  | none => rfl
  | some hd =>
    have hitems : hd.keys.items = [item] := by rw [header_keys hh, hkeys]
    have hne : hd.keys.ncmds ≠ 0 := by
      rw [header_keys hh, ← items_length, hkeys]
      exact Nat.one_ne_zero
    unfold Command.requests
    simp only [Option.bind_eq_bind, Option.bind_some, hitems, if_neg hne, List.mapM_cons,
      List.mapM_nil]
    cases itemRequest k.cls k.request hd item <;> rfl

end Headers

/-! ## The options of one key -/

section Single

variable {O : Type} {cls : CommandClass O} {args args' : List Value} {p : Pair} {ps qs : Props}
  {stores : Bool} {key : String} {callback : Value} {id : Nat}

/-- The options a single call makes for its key are those a `kv` has; a `value` only matters to a
    store. -/
structure Same (stores : Bool) (ps qs : Props) : Prop where
  other : ∀ name, name ≠ NameMap.value → ps.lookup name = qs.lookup name
  value : stores = true → ps.lookup NameMap.value = qs.lookup NameMap.value

/-- What `_mergeParams` makes of the options of a call. -/
theorem merged_same (hnd : (Assoc.keys qs).Nodup) (stores : Bool)
    (hvalue : stores = true → (qs.lookup NameMap.value).isSome = true) :
    Same stores (mergeInto (if stores then [(NameMap.value,
      (Value.object qs).getProperty NameMap.value)] else []) (.object qs)) qs where
  other name hname := by
    have hne : (name == NameMap.value) = false := by simpa using hname
    rw [mergeInto_lookup hnd hname]
    cases stores with
    | true => simp [List.lookup_cons, hne]
    | false => exact Option.or_none
  value hs := by
    subst hs
    obtain ⟨v, hv⟩ := Option.isSome_iff_exists.mp (hvalue rfl)
    have hfilter : (qs.filter fun p => decide (p.1 ≠ NameMap.value)).reverse.lookup
        NameMap.value = none := by
      rw [List.lookup_eq_none_iff]
      intro p hp
      have hne := of_decide_eq_true (List.mem_filter.mp (List.mem_reverse.mp hp)).2
      simpa using Ne.symm hne
    show (Assoc.writes (qs.filter fun p => decide (p.1 ≠ NameMap.value)) _).lookup _ = _
    rw [Assoc.lookup_writes, hfilter, hv, getProperty_object hv]
    rfl

/-- Slots that are read alike. -/
theorem Same.parse (hsame : Same stores ps qs) {specs : List (ParamSlot O)}
    (hspecs : ∀ sp ∈ specs, Named sp ∧ (sp.name = NameMap.value → stores = true)) (o : O) :
    parseAll (some (.object ps)) specs o = parseAll (some (.object qs)) specs o := by
  rw [parseAll_eq (object_options ps), parseAll_eq (object_options qs)]
  refine parseWith_congr (fun sp hsp => ?_) o
  obtain ⟨⟨_, hproto⟩, hstores⟩ := hspecs sp hsp
  rw [optionOf_object hproto, optionOf_object hproto]
  by_cases hname : sp.name = NameMap.value
  · rw [hname]
    exact hsame.value (hstores hname)
  · exact hsame.other _ hname

/-- So are the options of every class that takes them from the key. -/
theorem Same.request (hsame : Same p.stores ps qs) (glob : p.kind.Opts) (key hashkey : Option Bytes)
    (hp : p ≠ .get ∧ p ≠ .lock) :
    p.kind.request glob key hashkey (some (.object ps)) =
      p.kind.request glob key hashkey (some (.object qs)) := by
  have hunlock : parseAll (some (.object ps)) UnlockOptions.specs {} =
      parseAll (some (.object qs)) UnlockOptions.specs {} := by
    refine hsame.parse (fun sp hsp => ⟨named_unlock sp hsp, fun hname => ?_⟩) {}
    rw [List.mem_singleton.mp hsp] at hname
    exact absurd hname (show ¬ NameMap.cas = NameMap.value by decide)
  have hstore (hs : p.stores = true) (op : StorageOp) (glob : StoreOptions) :
      StoreCommand.request op glob key hashkey (some (.object ps)) =
        StoreCommand.request op glob key hashkey (some (.object qs)) := by
    unfold StoreCommand.request
    simp only [Option.bind_eq_bind, Option.bind_some,
      hsame.parse fun sp hsp => ⟨named_store sp hsp, fun _ => hs⟩]
  cases p with
  | get => exact absurd rfl hp.1
  | lock => exact absurd rfl hp.2
  | unlock =>
    show UnlockCommand.request glob key hashkey _ = UnlockCommand.request glob key hashkey _
    unfold UnlockCommand.request
    simp only [Option.bind_eq_bind, Option.bind_some, hunlock]
  | observe => rfl
  | remove =>
    show DeleteCommand.request glob key hashkey _ = DeleteCommand.request glob key hashkey _
    unfold DeleteCommand.request
    rw [hunlock]
    rfl
  | set | add | replace | append | prepend => exact hstore rfl _ glob

theorem Same.hashkey (hsame : Same stores ps qs) (o : Slot (Option Value)) :
    parseAll (some (.object ps)) hashkeySlots o = parseAll (some (.object qs)) hashkeySlots o := by
  refine hsame.parse (fun sp hsp => ⟨named_hashkey sp hsp, fun hname => ?_⟩) o
  rw [List.mem_singleton.mp hsp] at hname
  exact absurd hname (show ¬ NameMap.hashkey = NameMap.value by decide)

/-- **The request of a key** whose options are read alike. -/
theorem Same.item (hsame : Same p.stores ps qs) {hd hd' : Header p.kind.Opts}
    (hb : BareHeader p.kind.cls args hd) (hb' : BareHeader p.kind.cls args' hd') (v : Option Value)
    (hp : p ≠ .get ∧ p ≠ .lock) :
    itemRequest p.kind.cls p.kind.request hd' (v, some (.object ps)) =
      itemRequest p.kind.cls p.kind.request hd (v, some (.object qs)) := by
  have hhash : hashkeyText p.kind.cls hd' (some (.object ps)) =
      hashkeyText p.kind.cls hd (some (.object qs)) := by
    unfold hashkeyText
    rw [hsame.hashkey, hb.hashkey, hb'.hashkey]
    rfl
  unfold itemRequest
  simp only [hhash, hb.options, hb'.options, hsame.request _ _ _ hp]

end Single

/-! ## A get of one key -/

section Get

variable {p : Pair} {ps : Props} {key : String} {i : Nat}

/-- What a get and a lock do with the options of a call. -/
def Inits (afterInit : GetOptions → GetOptions) : Prop :=
  afterInit = id ∨ afterInit = fun o => { o with lockTime := o.lockTime.forceIsFound }

/-- The options of a single get are those of the call, those of a `kv` the key's own: there is no
    other to win over them, so the commands are the same. -/
theorem get_request_same {own : GetOptions} {key hashkey : Option Bytes}
    (hown : parseAll (some (.object ps)) GetOptions.specs {} = .ok own)
    {afterInit : GetOptions → GetOptions} (hinit : Inits afterInit) :
    GetCommand.request (afterInit own) key hashkey none =
      GetCommand.request (afterInit {}) key hashkey (some (.object ps)) := by
  have hsettled : Settled own.lockTime := (get_settled hown).lockTime
  have hkv : (own.merge (afterInit {})).lockTime =
      if own.lockTime.isFound then own.lockTime else (afterInit {}).lockTime := rfl
  -- a lock time that is not found is 0, as the default is
  have hsame : (afterInit own).lockTime.v = (own.merge (afterInit {})).lockTime.v ∧
      (afterInit own).lockTime.isFound = (own.merge (afterInit {})).lockTime.isFound := by
    rw [hkv]
    cases hf : own.lockTime.isFound with
    | true =>
      rcases hinit with rfl | rfl
      · exact ⟨rfl, rfl⟩
      · exact ⟨rfl, hf.symm⟩
    | false =>
      rcases hinit with rfl | rfl
      · exact ⟨hsettled.zero hf, hf⟩
      · exact ⟨hsettled.zero hf, rfl⟩
  unfold GetCommand.request GetCommand.options
  simp only [Value.isObject, if_true, hown, Parsed.toOption, Option.map_some, Option.some.injEq]
  rw [← hsame.1, ← hsame.2]
  rfl

/-- The header of a single get: the options of the call, and their hashkey. -/
theorem get_header {cls : CommandClass GetOptions} (hp : cls.params = some GetOptions.specs)
    (hdefaults : cls.defaults = {}) (ps : Props) (key : String) (i : Nat) :
    ∃ spooled, header cls [.array [.string key], .object ps, .function i] =
      (parseAll (some (.object ps)) GetOptions.specs {}).toOption.bind fun own =>
        (parseAll (some (.object ps)) hashkeySlots { v := none }).toOption.map fun slot =>
          { apiArgs := [.array [.string key], .object ps, .function i], isSpooled := spooled
            callback := { v := some (.function i), status := .found }, globalHashkey := slot
            keys := KeysInfo.setKeys (.array [.string key])
            globalOptions := cls.afterInit own } := by
  obtain ⟨spooled, hcommon⟩ := common_hashkey (object_options ps)
  refine ⟨spooled, ?_⟩
  have hopts : callOptions cls [.array [.string key], .object ps, .function i] =
      (parseAll (some (.object ps)) GetOptions.specs {}).toOption := by
    unfold callOptions
    rw [hp, hdefaults]
    rfl
  have hslot : (CallableOption.parseValue (.function i) { v := none }).toOption =
      some { v := some (.function i), status := .found } := rfl
  unfold header
  rw [hopts]
  show (_ >>= fun own => (CallableOption.parseValue (.function i) { v := none }).toOption >>= _) = _
  rw [hslot]
  refine congrArg _ (funext fun own => ?_)
  show ((parseAll (some (.object ps)) commonSlots {}).toOption >>= _) = _
  rw [hcommon]
  cases (parseAll (some (.object ps)) hashkeySlots { v := none }).toOption <;> rfl

/-- **A get of one key** comes to the request the key has in a `kv`. -/
theorem get_one {cls : CommandClass GetOptions} (hp : cls.params = some GetOptions.specs)
    (hdefaults : cls.defaults = {}) (hinit : Inits cls.afterInit)
    (hdflt : cls.getDefaultString = none) {args : List Value} {hd : Header GetOptions}
    (hb : BareHeader cls args hd) :
    (header cls [.array [.string key], .object ps, .function i]).bind
        (fun hd' => itemRequest cls GetCommand.request hd' (some (.string key), none)) =
      itemRequest cls GetCommand.request hd (some (.string key), some (.object ps)) := by
  obtain ⟨spooled, hh⟩ := get_header hp hdefaults ps key i
  have hkv : hashkeyText cls hd (some (.object ps)) =
      (parseAll (some (.object ps)) hashkeySlots { v := none }).toOption.bind fun slot =>
        if slot.isFound then (backedString none slot.v).map some else some none := by
    unfold hashkeyText
    rw [hb.hashkey, hdflt]
    rfl
  unfold itemRequest
  simp only [Option.bind_eq_bind, hh, hkv, hdflt, hb.options, hdefaults]
  cases hown : parseAll (some (.object ps)) GetOptions.specs {} with
  | bad o c | fault =>
    have hnone (key hashkey : Option Bytes) :
        GetCommand.request (cls.afterInit {}) key hashkey (some (.object ps)) = none := by
      unfold GetCommand.request GetCommand.options
      simp only [Value.isObject, if_true, hown]
      rfl
    simp only [hnone, Parsed.toOption, Option.bind_none, Option.bind_fun_none]
  | ok own =>
    show (Option.map _ (parseAll (some (.object ps)) hashkeySlots _).toOption).bind _ = _
    cases (parseAll (some (.object ps)) hashkeySlots { v := none }).toOption with
    | none => rfl
    | some slot =>
      simp only [Option.map_some, Option.bind_some, get_request_same hown hinit]
      refine congrArg (fun t : Option (Option Bytes) => t.bind _) ?_
      show (if slot.isFound then (backedString cls.getDefaultString slot.v).map some
        else some none) = _
      rw [hdflt]

end Get

/-! ## The two forms -/

section Forms

variable {p : Pair} {ps g : Props} {kv : KeyOptions} {callback : Value} {key : String} {i : Nat}
  {h : Heap}

/-- What libcouchbase is asked for by a call whose last argument is function `i`. -/
def requested (call : NativeCall) (i : Nat) (h : Heap) : Option LcbCall :=
  lower call.target (call.args ++ [.function i]) h

/-- The request a key has in a call for many. -/
def manyRequest (p : Pair) (hd : Header p.kind.Opts) (e : String × Props) : Option LcbReq :=
  itemRequest p.kind.cls p.kind.request hd (some (.string e.1), some (.object e.2))

theorem entry_options (p : Pair) (o : p.kind.Opts) : p.kind.cls.entry o 0 = p.entry := by
  cases p <;> rfl

omit [Runtime] in
theorem lastArg_append (args : List Value) (v : Value) : lastArg (args ++ [v]) = v := by
  unfold lastArg
  rw [List.getLastD_concat]

/-- What a single call passes on that takes its options from its key. -/
theorem one_args (hp : p ≠ .get ∧ p ≠ .lock) (key : String) (ps : Props) (callback : Value)
    (i : Nat) :
    (p.one key (.object ps) callback).target = p.kind ∧
      let args := (p.one key (.object ps) callback).args ++ [.function i]
      let merged := mergeInto (if p.stores then [(NameMap.value,
        (Value.object ps).getProperty NameMap.value)] else []) (.object ps)
      arg args 0 = .object [(key, .object merged)] ∧ Bare (arg args 1) := by
  cases p with
  | get => exact absurd rfl hp.1
  | lock => exact absurd rfl hp.2
  | unlock | observe | remove => exact ⟨rfl, rfl, bare_function i⟩
  | set | add | replace | append | prepend => exact ⟨rfl, rfl, bare_null⟩

/-- The one key of an object of options. -/
theorem items_one (key : String) (ps : Props) :
    (KeysInfo.setKeys (.object [(key, .object ps)])).items =
      [(some (.string key), some (.object ps))] := by
  have hget : (Value.object [(key, .object ps)]).getProperty key = .object ps :=
    getProperty_object List.lookup_cons_self
  exact congrArg (fun v => [(some (Value.string key), some v)]) hget

/-- A get of one key asks for the request the key has in a call for many. -/
theorem asked_get {args : List Value} {hd : Header p.kind.Opts} (hb : BareHeader p.kind.cls args hd)
    (hp : p = .get ∨ p = .lock) :
    requested (p.one key (.object ps) callback) i h =
      (manyRequest p hd (key, ps)).map fun req => { entry := p.entry, cmds := [req] } := by
  have hitems : (KeysInfo.setKeys (arg [.array [.string key], .object ps, .function i] 0)).items =
      [(some (.string key), none)] := rfl
  rcases hp with rfl | rfl
  · have hone : _ = itemRequest GetCommand GetCommand.request hd
        (some (.string key), some (.object ps)) := get_one (i := i) rfl rfl (.inl rfl) rfl hb
    show lower .get [.array [.string key], .object ps, .function i] h = _
    rw [lower_call (byKey_gets (.inl rfl)), call_one hitems]
    refine Eq.trans ?_ (congrArg (Option.map _) hone)
    rw [Option.map_bind]
    rfl
  · have hone : _ = itemRequest LockCommand GetCommand.request hd
        (some (.string key), some (.object ps)) := get_one (i := i) rfl rfl (.inr rfl) rfl hb
    show lower .lock [.array [.string key], .object ps, .function i] h = _
    rw [lower_call (byKey_gets (.inr rfl)), call_one hitems]
    refine Eq.trans ?_ (congrArg (Option.map _) hone)
    rw [Option.map_bind]
    rfl

/-- So does every call for one key. -/
theorem asked_one {args : List Value} {hd : Header p.kind.Opts} (hb : BareHeader p.kind.cls args hd)
    (hnd : (Assoc.keys ps).Nodup)
    (hvalue : p.stores = true → (ps.lookup NameMap.value).isSome = true) :
    requested (p.one key (.object ps) callback) i h =
      (manyRequest p hd (key, ps)).map fun req => { entry := p.entry, cmds := [req] } := by
  by_cases hp : p = .get ∨ p = .lock
  · exact asked_get hb hp
  · obtain ⟨htarget, hkeys, hbare⟩ := one_args (not_or.mp hp) key ps callback i
    unfold requested
    rw [htarget, lower_call (pair_byKey p), call_one (by rw [hkeys]; exact items_one key _)]
    obtain ⟨hd', hh, hb'⟩ := bare_header (pair_named p) hbare (lastArg_append _ _)
    rw [hh, Option.bind_some, entry_options,
      (merged_same hnd p.stores hvalue).item hb hb' _ (not_or.mp hp)]
    rfl

omit [Runtime] in
/-- What is done to each of some reads can be done to them all. -/
theorem mapM_map_each {α β γ : Type} (f : α → Option β) (g : β → γ) (xs : List α) :
    (xs.mapM fun x => (f x).map g) = (xs.mapM f).map (List.map g) := by
  induction xs with
  | nil => rfl
  | cons x xs ih =>
    rw [List.mapM_cons, List.mapM_cons, ih]
    cases f x with
    | none => rfl
    | some y => cases xs.mapM f <;> rfl

/-- The keys of a `kv` with the options of each. -/
theorem items_kv (hnd : (kv.map Prod.fst).Nodup) :
    (KeysInfo.setKeys kv.toValue).items =
      kv.map fun e => (some (.string e.1), some (.object e.2)) := by
  have hkeys : (Assoc.keys (kv.map fun e => (e.1, Value.object e.2))).Nodup := by
    unfold Assoc.keys
    rw [List.map_map]
    exact hnd
  have hitems : (KeysInfo.setKeys kv.toValue).items =
      kv.map fun e => (some (.string e.1), some (kv.toValue.getProperty e.1)) := by
    simp [KeyOptions.toValue, KeysInfo.setKeys, KeysInfo.items, Value.isObject,
      Value.propertyNames, Value.entries, List.map_map, Function.comp_def]
  rw [hitems]
  refine List.map_congr_left fun e he => ?_
  have hget : kv.toValue.getProperty e.1 = .object e.2 := by
    refine getProperty_object ?_
    obtain ⟨pre, post, hsplit⟩ := List.append_of_mem
      (List.mem_map_of_mem (f := fun e => (e.1, Value.object e.2)) he)
    rw [hsplit] at hkeys ⊢
    exact Assoc.lookup_middle (Assoc.middle_fresh hkeys).1
  rw [hget]

/-- **A call for many keys asks for what the calls for one key ask for**, in the order of its keys,
    and does not get to libcouchbase if one of them does not. A store has a value for each. -/
theorem batch_lowers (hkv : KeyOptions.Proper p kv) (hnd : (Assoc.keys g).Nodup)
    (hg : ∀ name ∈ Assoc.keys g, name ∈ endureNames) :
    requested (p.many kv.toValue (.object g) callback) i h =
      (kv.mapM fun e => requested (p.one e.1 (.object e.2) callback) i h).map fun calls =>
        { entry := p.entry, cmds := calls.flatMap (·.cmds) } := by
  have hargs : (p.many kv.toValue (.object g) callback).target = p.kind ∧
      (p.many kv.toValue (.object g) callback).args =
        [kv.toValue, multiOptions (.object g)] := by
    cases p <;> exact ⟨rfl, rfl⟩
  have hbare : Bare (arg [kv.toValue, multiOptions (.object g), .function i] 1) :=
    bare_multi hnd hg
  obtain ⟨hd, hh, hb⟩ := bare_header (pair_named p) hbare rfl
  have hone : (kv.mapM fun e => requested (p.one e.1 (.object e.2) callback) i h) =
      (kv.mapM (manyRequest p hd)).map
        (List.map fun req => { entry := p.entry, cmds := [req] }) := by
    rw [← mapM_map_each]
    exact mapM_congr fun e he => asked_one hb (hkv.options e he) fun hs => hkv.values hs e he
  have hitems : hd.keys.items = kv.map fun e => (some (.string e.1), some (.object e.2)) := by
    rw [hb.keys]
    exact items_kv hkv.keys
  have hne : hd.keys.ncmds ≠ 0 := by
    rw [hb.keys, ← items_length, ← hb.keys, hitems, List.length_map]
    exact fun hz => hkv.nonempty (List.eq_nil_of_length_eq_zero hz)
  rw [hone]
  unfold requested
  rw [hargs.1, hargs.2, lower_call (pair_byKey p)]
  unfold Command.call Command.requests
  show (header p.kind.cls [kv.toValue, multiOptions (.object g), .function i]).bind _ = _
  rw [hh]
  simp only [Option.bind_eq_bind, Option.bind_some, hitems, if_neg hne, List.mapM_map]
  show ((kv.mapM (manyRequest p hd)).bind _) = _
  cases kv.mapM (manyRequest p hd) with
  | none => rfl
  | some reqs =>
    simp only [Option.bind_some, Option.map_some, entry_options]
    rw [List.flatMap_map]
    simp

end Forms

end Proof

section Example

open scoped SmallRuntime

/-- Two documents, one of them to be locked. -/
def getTwo : KeyOptions := [("a", [("locktime", .number (.fin 5))]), ("b", [])]

/-- `getMulti` asks for what the two `get`s ask for. -/
theorem Proof.batch_lowers_get : ∃ calls,
    getTwo.mapM (fun e => Proof.requested (Pair.get.one e.1 (.object e.2) .null) 1 []) =
        some calls ∧
      calls.length = 2 ∧
      Proof.requested (Pair.get.many getTwo.toValue (.object []) .null) 1 [] =
        some { entry := .get, cmds := calls.flatMap (·.cmds) } := by
  obtain ⟨calls, hcalls, hlen⟩ := (Option.any_eq_true _ _).mp
    (show (getTwo.mapM fun e => Proof.requested (Pair.get.one e.1 (.object e.2) .null) 1 []).any
      (fun calls => calls.length = 2) = true by decide +kernel)
  refine ⟨calls, hcalls, of_decide_eq_true hlen, ?_⟩
  have hkv : KeyOptions.Proper .get getTwo := by
    refine ⟨nofun, by decide, ?_, fun hs => ?_⟩
    · intro e he
      rcases List.mem_cons.mp he with rfl | he
      · decide
      · rw [List.mem_singleton.mp he]
        decide
    · cases hs
  rw [Proof.batch_lowers hkv (by decide) (fun _ h => absurd h List.not_mem_nil), hcalls]
  rfl

end Example

end Couchnode
