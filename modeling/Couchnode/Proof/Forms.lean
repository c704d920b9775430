import Couchnode.Proof.Progress
import Couchnode.Proof.Slots

/-!
# Keys as an array, keys as an object

A request names its keys in an array, or as the properties of an object that hold the options of
each. With empty options the two should come to the same, whatever the options of the call are.
Each handler makes its own choice between a key's options and those of the call, and two of them
take the key's as soon as there is an object, even an empty one: a touch then has no expiry and a
remove no CAS. `objectGlobals` is what is left of the options of the call, and `forms_agree_iff`
says when that loses nothing.
-/

set_option autoImplicit false

namespace Couchnode

/-- The kinds that take their keys either way. -/
def Kind.BothForms (k : Kind) : Prop :=
  k = .get ∨ k = .lock ∨ k = .touch ∨ k = .delete ∨ k = .arithmetic ∨ k = .observe ∨ k = .endure

/-- `op([k1, .., kn], options, callback)` -/
def arrayForm (names : List String) (options callback : Value) : List Value :=
  [.array (names.map .string), options, callback]

/-- `op({k1: {}, .., kn: {}}, options, callback)` -/
def objectForm (names : List String) (options callback : Value) : List Value :=
  [objectLiteral (names.map fun name => (name, .object [])), options, callback]

namespace Proof

open Command ParamSlot

variable [Runtime]

/-! ## The keys of the two forms -/

section Keys

variable {names : List String}

omit [Runtime] in
/-- Without array indices, the object lists the names as they were given. -/
theorem objectLiteral_names (hnd : names.Nodup)
    (hnum : ∀ name ∈ names, isArrayIndex name = false) :
    objectLiteral (names.map fun name => (name, .object [])) =
      .object (names.map fun name => (name, .object [])) := by
  have hkeys : (Assoc.keys (names.map fun name => (name, Value.object []))).Nodup := by
    unfold Assoc.keys
    rw [List.map_map]
    simpa [Function.comp_def] using hnd
  have hwrites : Assoc.writes (names.map fun name => (name, Value.object [])) [] =
      names.map fun name => (name, .object []) := by
    rw [Assoc.writes_fresh (by simpa using hkeys), List.nil_append]
  unfold objectLiteral
  rw [hwrites]
  have hnone : (names.map fun name => (name, Value.object [])).filter
      (fun p => isArrayIndex p.1) = [] := by
    rw [List.filter_eq_nil_iff]
    intro p hp
    obtain ⟨name, hname, rfl⟩ := List.mem_map.mp hp
    simp [hnum name hname]
  have hall : (names.map fun name => (name, Value.object [])).filter
      (fun p => !isArrayIndex p.1) = names.map fun name => (name, Value.object []) := by
    rw [List.filter_eq_self]
    intro p hp
    obtain ⟨name, hname, rfl⟩ := List.mem_map.mp hp
    simp [hnum name hname]
  simp only [hnone, hall, List.insertionSort_nil, List.nil_append]

theorem items_array :
    (KeysInfo.setKeys (.array (names.map .string))).items =
      names.map fun name => (some (.string name), none) := by
  simp [KeysInfo.setKeys, KeysInfo.items, KeysInfo.elements, List.map_map, Function.comp_def]

theorem items_object :
    (KeysInfo.setKeys (.object (names.map fun name => (name, .object [])))).items =
      names.map fun name => (some (.string name), some (.object [])) := by
  have hprop (name : String) (hname : name ∈ names) :
      (Value.object (names.map fun name => (name, .object []))).getProperty name = .object [] := by
    show ((names.map fun name => (name, Value.object [])).lookup name).getD .undefined = _
    cases hl : (names.map fun name => (name, Value.object [])).lookup name with
    | none =>
      rw [List.lookup_eq_none_iff] at hl
      exact absurd (hl (name, .object []) (List.mem_map_of_mem hname)) (by simp)
    | some v =>
      obtain ⟨_, _, hp⟩ := List.mem_map.mp (Assoc.mem_of_lookup hl)
      exact (Prod.mk.inj hp).2.symm
  have hitems : (KeysInfo.setKeys (.object (names.map fun name => (name, .object [])))).items =
      names.map fun name => (some (.string name),
        some ((Value.object (names.map fun name => (name, .object []))).getProperty name)) := by
    simp [KeysInfo.setKeys, KeysInfo.items, Value.isObject, Value.propertyNames, Value.entries,
      List.map_map, Function.comp_def]
  rw [hitems]
  exact List.map_congr_left fun name hname => by rw [hprop name hname]

end Keys

/-! ## One key -/

section Single

variable {k : Kind} {glob : k.Opts} {key hashkey : Option Bytes}

/-- The options of the call, as far as a key with empty options of its own sees them. -/
def objectGlobals : (k : Kind) → k.Opts → k.Opts
  | .touch, _ => ({} : TouchOptions)
  | .delete, _ => ({} : UnlockOptions)
  | .get, o | .lock, o => o
  | .store _, o => o
  | .unlock, o => o
  | .arithmetic, o => o
  | .observe, o | .stats, o => o
  | .endure, o => o
  | .http, o => o

/-- Nothing is lost of them: a touch has no expiry, a remove no CAS. -/
def SameGlobals : (k : Kind) → k.Opts → Prop
  | .touch, (o : TouchOptions) => o.exp.v.toNat = 0
  | .delete, (o : UnlockOptions) => o.cas.v = 0
  | .get, _ | .lock, _ | .store _, _ | .unlock, _ | .arithmetic, _ | .observe, _ | .stats, _
  | .endure, _ | .http, _ => True

theorem hashkeyText_object {O : Type} (cls : CommandClass O) (hd : Header O) :
    hashkeyText cls hd (some (.object [])) = hashkeyText cls hd none := rfl

/-- **An object of no options hides some options of the call.** -/
theorem request_object (hk : k.BothForms) :
    k.request glob key hashkey (some (.object [])) =
      k.request (objectGlobals k glob) key hashkey none := by
  rcases hk with rfl | rfl | rfl | rfl | rfl | rfl | rfl <;> rfl

/-- With no options of its own every key has a request. -/
theorem request_none (hk : k.BothForms) : (k.request glob key hashkey none).isSome = true := by
  rcases hk with rfl | rfl | rfl | rfl | rfl | rfl | rfl <;> rfl

theorem touch_same {glob : TouchOptions} :
    TouchCommand.request glob key hashkey none = TouchCommand.request {} key hashkey none ↔
      glob.exp.v.toNat = 0 := by
  have hreq (o : TouchOptions) : TouchCommand.request o key hashkey none =
      some (.keyed key hashkey { exptime := o.exp.v.toNat }) := rfl
  rw [hreq, hreq]
  simp [LcbReq.keyed]

theorem delete_same {glob : UnlockOptions} :
    DeleteCommand.request glob key hashkey none = DeleteCommand.request {} key hashkey none ↔
      glob.cas.v = 0 := by
  have hreq (o : UnlockOptions) : DeleteCommand.request o key hashkey none =
      some (.keyed key hashkey { cas := o.cas.v }) := rfl
  rw [hreq, hreq]
  simp [LcbReq.keyed]

/-- Hiding them makes no difference exactly when nothing is lost. -/
theorem request_same (hk : k.BothForms) :
    k.request glob key hashkey none = k.request (objectGlobals k glob) key hashkey none ↔
      SameGlobals k glob := by
  rcases hk with rfl | rfl | rfl | rfl | rfl | rfl | rfl
  case inr.inr.inl => exact touch_same
  case inr.inr.inr.inl => exact delete_same
  all_goals exact ⟨fun _ => trivial, fun _ => rfl⟩

end Single

/-! ## The calls -/

section Calls

variable {k : Kind} {names : List String} {options callback : Value} {hd : Header k.Opts}

/-- What keys are given does not matter to the rest of the header. -/
theorem header_keys_swap {O : Type} (cls : CommandClass O) (x y options callback : Value) :
    header cls [y, options, callback] = (header cls [x, options, callback]).map fun hd =>
      { hd with apiArgs := [y, options, callback], keys := KeysInfo.setKeys y } := by
  unfold header
  have hopts : callOptions cls [y, options, callback] = callOptions cls [x, options, callback] := rfl
  rw [hopts]
  simp only [Option.bind_eq_bind]
  cases callOptions cls [x, options, callback] with
  | none => rfl
  | some opts =>
    show ((CallableOption.parseValue callback { v := none }).toOption.bind _) =
      ((CallableOption.parseValue callback { v := none }).toOption.bind _).map _
    cases (CallableOption.parseValue callback { v := none }).toOption with
    | none => rfl
    | some slot =>
      show ((parseAll (some options) commonSlots {}).toOption.bind _) =
        ((parseAll (some options) commonSlots {}).toOption.bind _).map _
      cases (parseAll (some options) commonSlots {}).toOption with
      | none => rfl
      | some common =>
        simp only [Option.bind_some]
        by_cases hf : slot.isFound
        · rw [if_pos hf, if_pos hf]
          rfl
        · rw [if_neg hf, if_neg hf]
          rfl

/-- There are keys, and neither they nor the hashkey are empty strings. -/
structure Usable (k : Kind) (hd : Header k.Opts) (names : List String) : Prop where
  nonempty : names ≠ []
  names : ∀ name ∈ names, name ≠ ""
  hashkey : (hashkeyText k.cls hd none).isSome = true

omit [Runtime] in
theorem utf8_ne_nil {name : String} (h : name ≠ "") : utf8 name ≠ [] := by
  intro hn
  refine h (String.toByteArray_inj.mp (ByteArray.ext (Array.ext' ?_)))
  exact hn

/-- The request of one name in the array. -/
def arrayRequest (k : Kind) (hd : Header k.Opts) (name : String) : Option LcbReq :=
  itemRequest k.cls k.request hd (some (.string name), none)

/-- And among the properties of the object. -/
def objectRequest (k : Kind) (hd : Header k.Opts) (name : String) : Option LcbReq :=
  itemRequest k.cls k.request hd (some (.string name), some (.object []))

theorem bothForms_noDefault (hk : k.BothForms) : k.cls.getDefaultString = none := by
  rcases hk with rfl | rfl | rfl | rfl | rfl | rfl | rfl <;> rfl

/-- A request needs a name and a hashkey that are not empty strings. -/
theorem request_usable (hk : k.BothForms) {name : String} {t : Option Bytes}
    (ht : hashkeyText k.cls hd none = some t) (hname : name ≠ "") :
    arrayRequest k hd name = k.request hd.globalOptions (some (utf8 name)) t none ∧
      objectRequest k hd name =
        k.request (objectGlobals k hd.globalOptions) (some (utf8 name)) t none := by
  have hkey : backedString k.cls.getDefaultString (some (.string name)) = some (utf8 name) := by
    simp [backedString, Value.isString, Value.toName, utf8_ne_nil hname]
  unfold arrayRequest objectRequest itemRequest
  simp only [Option.bind_eq_bind, hashkeyText_object, ht, hkey, Option.bind_some, request_object hk,
    and_self]

theorem request_unusable (hk : k.BothForms) {name : String}
    (h : name = "" ∨ hashkeyText k.cls hd none = none) :
    arrayRequest k hd name = none ∧ objectRequest k hd name = none := by
  unfold arrayRequest objectRequest itemRequest
  simp only [Option.bind_eq_bind, hashkeyText_object]
  rcases h with rfl | h
  · have hkey : backedString k.cls.getDefaultString (some (.string "")) = none := by
      rw [bothForms_noDefault hk]
      rfl
    simp only [hkey, Option.bind_none]
    cases hashkeyText k.cls hd none <;> exact ⟨rfl, rfl⟩
  · simp only [h, Option.bind_none, and_self]

omit [Runtime] in
theorem bothForms_byKey (hk : k.BothForms) : ByKey k := by
  rcases hk with rfl | rfl | rfl | rfl | rfl | rfl | rfl <;> exact ⟨by decide, by decide⟩

/-- The call an array form comes to, its header being read. -/
theorem call_array (hh : header k.cls (arrayForm names options callback) = some hd) :
    Command.call k (arrayForm names options callback) =
      (names.mapM (arrayRequest k hd)).bind fun reqs =>
        if names.length = 0 then none
        else some { entry := k.cls.entry hd.globalOptions 0, cmds := reqs } := by
  have hkeys := header_keys hh
  have hreqs : Command.requests k hd = names.mapM (arrayRequest k hd) := by
    unfold Command.requests
    rw [hkeys]
    show (KeysInfo.setKeys (.array (names.map .string))).items.mapM _ = _
    rw [items_array, List.mapM_map]
    rfl
  have hn : hd.keys.ncmds = names.length := by
    rw [hkeys]
    show (names.map Value.string).length = _
    rw [List.length_map]
  unfold Command.call
  simp only [Option.bind_eq_bind, hh, Option.bind_some, hreqs, hn]

/-- And the object form. -/
theorem call_object (hh : header k.cls (arrayForm names options callback) = some hd)
    (hnd : names.Nodup) (hnum : ∀ name ∈ names, isArrayIndex name = false) :
    Command.call k (objectForm names options callback) =
      (names.mapM (objectRequest k hd)).bind fun reqs =>
        if names.length = 0 then none
        else some { entry := k.cls.entry hd.globalOptions 0, cmds := reqs } := by
  have hobj := header_keys_swap k.cls (.array (names.map .string))
    (.object (names.map fun name => (name, .object []))) options callback
  unfold arrayForm at hh
  rw [hh, Option.map_some] at hobj
  unfold objectForm
  rw [objectLiteral_names hnd hnum]
  unfold Command.call
  simp only [Option.bind_eq_bind, hobj, Option.bind_some]
  unfold Command.requests
  simp only [items_object, List.mapM_map]
  have hn : (KeysInfo.setKeys (.object (names.map fun name => (name, .object [])))).ncmds =
      names.length := by
    simp [KeysInfo.setKeys, Value.isObject, Value.propertyNames, Value.entries]
  simp only [hn]
  rfl

end Calls

/-! ## When the two agree -/

section Agree

variable {k : Kind} {names : List String} {options callback : Value} {h h' : Heap}

/-- Unusable keys have no call in either form. -/
theorem forms_unusable (hk : k.BothForms) {hd : Header k.Opts} (hu : ¬ Usable k hd names) :
    names.length = 0 ∨
      (names.mapM (arrayRequest k hd) = none ∧ names.mapM (objectRequest k hd) = none) := by
  by_cases hempty : names = []
  · exact .inl (by rw [hempty, List.length_nil])
  obtain ⟨first, hfirst⟩ := List.exists_mem_of_ne_nil names hempty
  have both {name : String} (hn : name ∈ names)
      (h : name = "" ∨ hashkeyText k.cls hd none = none) :
      names.mapM (arrayRequest k hd) = none ∧ names.mapM (objectRequest k hd) = none := by
    obtain ⟨ha, ho⟩ := request_unusable hk h
    exact ⟨mapM_none hn ha, mapM_none hn ho⟩
  right
  by_cases hnames : ∀ name ∈ names, name ≠ ""
  · cases ht : hashkeyText k.cls hd none with
    | none => exact both hfirst (.inr ht)
    | some t => exact absurd ⟨hempty, hnames, by rw [ht]; rfl⟩ hu
  · push Not at hnames
    obtain ⟨name, hn, hname⟩ := hnames
    exact both hn (.inl hname)

/-- **When the array form and the object form agree**: a touch of usable keys has no global
    expiry, and a remove no global CAS. -/
theorem forms_agree_iff (hk : k.BothForms) (hnd : names.Nodup)
    (hnum : ∀ name ∈ names, isArrayIndex name = false) :
    lower k (arrayForm names options callback) h = lower k (objectForm names options callback) h' ↔
      ∀ hd, header k.cls (arrayForm names options callback) = some hd → Usable k hd names →
        SameGlobals k hd.globalOptions := by
  rw [lower_call (bothForms_byKey hk), lower_call (bothForms_byKey hk)]
  cases hh : header k.cls (arrayForm names options callback) with
  | none =>
    -- the header does not depend on the form, so there is none in either
    have hobj := header_keys_swap k.cls (.array (names.map .string))
      (objectLiteral (names.map fun name => (name, .object []))) options callback
    unfold arrayForm at hh
    rw [hh, Option.map_none] at hobj
    have harr : Command.call k (arrayForm names options callback) = none := by
      unfold Command.call arrayForm
      rw [hh]
      rfl
    have hobj' : Command.call k (objectForm names options callback) = none := by
      unfold Command.call objectForm
      rw [hobj]
      rfl
    rw [harr, hobj']
    exact ⟨fun _ _ hnone => (by cases hnone), fun _ => rfl⟩
  | some hd =>
    rw [call_array hh, call_object hh hnd hnum]
    by_cases hu : Usable k hd names
    · -- all keys get the same numbers, so the first one decides
      obtain ⟨t, ht⟩ := Option.isSome_iff_exists.mp hu.hashkey
      have harr : names.mapM (arrayRequest k hd) = _ := mapM_some fun name hn =>
        (request_usable hk ht (hu.names name hn)).1.trans (Option.some_get (request_none hk)).symm
      have hobj : names.mapM (objectRequest k hd) = _ := mapM_some fun name hn =>
        (request_usable hk ht (hu.names name hn)).2.trans (Option.some_get (request_none hk)).symm
      have hlen : names.length ≠ 0 := fun hz => hu.nonempty (List.eq_nil_of_length_eq_zero hz)
      rw [harr, hobj]
      simp only [Option.bind_some, if_neg hlen, Option.some.injEq, LcbCall.mk.injEq, true_and]
      rw [List.map_inj_left]
      obtain ⟨first, hfirst⟩ := List.exists_mem_of_ne_nil names hu.nonempty
      constructor
      · intro hall hd' hsome _
        cases hsome
        exact (request_same hk).mp (Option.get_inj.mp (hall first hfirst))
      · intro hsame name _
        exact Option.get_inj.mpr ((request_same hk).mpr (hsame hd rfl hu))
    · -- there is no key, or both forms are refused
      have hnone : ∀ hd', some hd = some hd' → Usable k hd' names →
          SameGlobals k hd'.globalOptions := by
        intro hd' hsome hu'
        cases hsome
        exact absurd hu' hu
      refine ⟨fun _ => hnone, fun _ => ?_⟩
      rcases forms_unusable hk hu with hz | ⟨ha, ho⟩
      · simp [hz]
      · rw [ha, ho]

end Agree

end Proof

section Example

open scoped SmallRuntime

/-- The expiry of each command of a call. -/
def exptimes (call : Option LcbCall) : Option (List Nat) :=
  call.map fun c => c.cmds.map (·.nums.exptime)

def expiryFive : Value := .object [("expiry", .number (.fin 5))]

/-- The keys of each command of a call. -/
def keysOf (call : Option LcbCall) : Option (List (Option Bytes)) :=
  call.map fun c => c.cmds.map (·.key)

/-- A get of two keys makes the same two commands in both forms; the expiry of the call is in
    neither. -/
theorem Proof.forms_agree_iff_get :
    let array := Proof.lower .get (arrayForm ["a", "b"] expiryFive (.function 1)) []
    let object := Proof.lower .get (objectForm ["a", "b"] expiryFive (.function 1)) []
    keysOf array = some [some (utf8 "a"), some (utf8 "b")] ∧ exptimes array = some [0, 0] ∧
      array = object := by
  intro array object
  have hkeys : keysOf array = some [some (utf8 "a"), some (utf8 "b")] := by decide +kernel
  have htimes : exptimes array = some [0, 0] := by decide +kernel
  exact ⟨hkeys, htimes,
    (Proof.forms_agree_iff (.inl rfl) (by decide) (by decide)).mpr fun _ _ _ => trivial⟩

/-- A touch does not: with the object there is no expiry. -/
theorem Proof.forms_touch :
    let array := Proof.lower .touch (arrayForm ["a"] expiryFive (.function 1)) []
    let object := Proof.lower .touch (objectForm ["a"] expiryFive (.function 1)) []
    exptimes array = some [5] ∧ exptimes object = some [0] ∧ array ≠ object := by
  intro array object
  have harr : exptimes array = some [5] := by decide +kernel
  have hobj : exptimes object = some [0] := by decide +kernel
  refine ⟨harr, hobj, fun he => ?_⟩
  rw [he, hobj] at harr
  cases harr

end Example

end Couchnode
