import Couchnode.Proof.Calls
import Couchnode.Proof.Endings
import Couchnode.Proof.Slots
import Couchnode.Spec.Options
import Couchnode.V8.Runtime

/-!
# Own options, options of the call

Whether the commands are those the documentation promises. The get handler fills one number from
the lock time whether there is one or not, so the expiry of a get is never sent: `get_documented_iff`
is when that makes no difference.
-/

set_option autoImplicit false

namespace Couchnode

namespace Proof

open Command ParamSlot

variable [Runtime]

/-! ## Lists of commands -/

omit [Runtime] in
/-- What can be said of each pair by its first half can be said of all of them by the first list. -/
theorem forall₂_iff_forall {α β : Type} {R P : α → β → Prop} {Q : α → Prop} {xs : List α}
    {ys : List β} (hr : List.Forall₂ R xs ys) (h : ∀ x y, R x y → (P x y ↔ Q x)) :
    List.Forall₂ P xs ys ↔ ∀ x ∈ xs, Q x := by
  induction hr with
  | nil => simp
  | cons hxy _ ih => rw [List.forall₂_cons, List.forall_mem_cons, ih, h _ _ hxy]

/-- A call that is made has a header, and its commands are the requests of its keys. -/
theorem call_requests {k : Kind} {args : List Value} {lcb : LcbCall}
    (hcall : Command.call k args = some lcb) :
    ∃ hd, header k.cls args = some hd ∧
      List.Forall₂ (fun item req => itemRequest k.cls k.request hd item = some req)
        (KeysInfo.setKeys (arg args 0)).items lcb.cmds := by
  unfold Command.call at hcall
  simp only [Option.bind_eq_bind, Option.bind_eq_some_iff] at hcall
  obtain ⟨hd, hh, reqs, hreqs, hcall⟩ := hcall
  split at hcall
  · cases hcall
  · cases hcall
    refine ⟨hd, hh, ?_⟩
    rw [← header_keys hh]
    exact forall₂_of_mapM hreqs

/-- The options a header carries are those of the call. -/
theorem header_options {O : Type} {cls : CommandClass O} {args : List Value} {hd : Header O}
    (hh : header cls args = some hd) :
    ∃ o, callOptions cls args = some o ∧ hd.globalOptions = cls.afterInit o := by
  unfold header at hh
  simp only [Option.bind_eq_bind, Option.bind_eq_some_iff] at hh
  obtain ⟨o, ho, _, _, _, _, hh⟩ := hh
  split at hh
  · cases hh
    exact ⟨o, ho, rfl⟩
  · cases hh

/-! ## Get and lock -/

section Get

variable {k : Kind} {args : List Value} {h : Heap} {lcb : LcbCall}

/-- The numbers of a parsed get. -/
structure GetSettled (o : GetOptions) : Prop where
  expTime : Settled o.expTime
  lockTime : Settled o.lockTime

theorem get_settled {dict : Option Value} {o : GetOptions}
    (h : parseAll dict GetOptions.specs {} = .ok o) : GetSettled o :=
  ⟨settled_of_read (get_parsed h).1, settled_of_read (get_parsed h).2.1⟩

omit [Runtime] in
theorem default_settled : GetSettled {} :=
  ⟨⟨Int.le_refl 0, fun _ => rfl⟩, ⟨Int.le_refl 0, fun _ => rfl⟩⟩

/-- The options of a key are its own over those of the header. -/
theorem get_options {glob o : GetOptions} {params : Option Value}
    (h : GetCommand.options glob params = some o) :
    o = (GetCommand.own params).merge glob ∧ GetSettled (GetCommand.own params) := by
  unfold GetCommand.options at h
  unfold GetCommand.own
  cases params with
  | none =>
    cases h
    exact ⟨rfl, default_settled⟩
  | some p =>
    by_cases hp : p.isObject
    · simp only [if_pos hp] at h ⊢
      obtain ⟨own, hown, rfl⟩ := Option.map_eq_some_iff.mp h
      rw [hown]
      exact ⟨rfl, get_settled (toOption_ok hown)⟩
    · simp only [if_neg hp] at h ⊢
      cases h
      exact ⟨rfl, default_settled⟩

omit [Runtime] in
/-- A slot that was merged reads as the effective option, 0 where there is none. -/
theorem effective_merged (own : Slot Int) {glob : Slot Int} (hg : Settled glob) :
    (if own.isFound then own else glob).v = (effective own glob).getD 0 ∧
      (if own.isFound then own else glob).isFound = (effective own glob).isSome := by
  unfold effective
  by_cases ho : own.isFound
  · simp [ho]
  · by_cases hf : glob.isFound
    · simp [ho, hf]
    · simp [ho, hf, hg.zero (by simpa using hf)]

omit [Runtime] in
theorem effective_nonneg {own glob : Slot Int} (ho : Settled own) (hg : Settled glob) :
    0 ≤ (effective own glob).getD 0 := by
  unfold effective
  by_cases hfo : own.isFound
  · simpa [hfo] using ho.nonneg
  · by_cases hfg : glob.isFound
    · simpa [hfo, hfg] using hg.nonneg
    · simp [hfo, hfg]

/-- The expiry of a key makes no difference: it is locked, or there is none. -/
def NoExpiry (k : Kind) (args : List Value) (params : Option Value) : Prop :=
  let own := GetCommand.own params
  let glob := GetCommand.globals args
  k = .lock ∨ (effective own.lockTime glob.lockTime).isSome = true ∨
    (effective own.expTime glob.expTime).getD 0 = 0

omit [Runtime] in
/-- A lock counts its lock time as given, and takes the same number. -/
theorem forced_merged (own : Slot Int) {glob : Slot Int} (hg : Settled glob) :
    (if own.isFound then own else glob.forceIsFound).v = (effective own glob).getD 0 ∧
      (if own.isFound then own else glob.forceIsFound).isFound = true := by
  obtain ⟨hv, _⟩ := effective_merged own hg
  rw [← hv]
  by_cases ho : own.isFound
  · simp [ho]
  · rw [if_neg ho, if_neg ho]
    exact ⟨rfl, rfl⟩

omit [Runtime] in
/-- **One key of a get or a lock.** -/
theorem get_documented {glob own : GetOptions} {afterInit : GetOptions → GetOptions}
    (hk : (k = .get ∧ afterInit = id) ∨
      (k = .lock ∧ afterInit = fun o => { o with lockTime := o.lockTime.forceIsFound }))
    (hg : GetSettled glob) (ho : GetSettled own) :
    let merged := own.merge (afterInit glob)
    GetCommand.Documented k glob own
        { exptime := merged.lockTime.v.toNat, lock := if merged.lockTime.isFound then 1 else 0 } ↔
      k = .lock ∨ (effective own.lockTime glob.lockTime).isSome = true ∨
        (effective own.expTime glob.expTime).getD 0 = 0 := by
  intro merged
  unfold GetCommand.Documented
  rcases hk with ⟨rfl, rfl⟩ | ⟨rfl, rfl⟩
  · -- a get: the lock time as it was merged
    obtain ⟨hv, hf⟩ := effective_merged own.lockTime hg.lockTime
    have hv : merged.lockTime.v = _ := hv
    have hf : merged.lockTime.isFound = _ := hf
    have hpos := effective_nonneg ho.expTime hg.expTime
    rw [hv, hf]
    cases hl : effective own.lockTime glob.lockTime with
    | some l => simp
    | none =>
      simp only [reduceCtorEq, Option.isSome_none, Bool.false_eq_true, or_self, if_false,
        Option.getD_none, Int.toNat_zero, true_and, false_or]
      omega
  · obtain ⟨hv, hf⟩ := forced_merged own.lockTime hg.lockTime
    have hv : merged.lockTime.v = _ := hv
    have hf : merged.lockTime.isFound = true := hf
    simp [hv, hf]

/-- The options a get or a lock was given, in its header. -/
theorem get_globals (cls : CommandClass GetOptions) (hp : cls.params = some GetOptions.specs)
    (hdef : cls.defaults = {}) {hd : Header GetOptions} (hh : header cls args = some hd) :
    hd.globalOptions = cls.afterInit (GetCommand.globals args) ∧
      GetSettled (GetCommand.globals args) := by
  obtain ⟨o, ho, hglob⟩ := header_options hh
  unfold callOptions at ho
  rw [hp, hdef] at ho
  have hglobals : GetCommand.globals args = o := by
    show (parseAll (some (arg args 1)) GetOptions.specs {}).toOption.getD {} = o
    have ho : (parseAll (some (arg args 1)) GetOptions.specs {}).toOption = some o := ho
    rw [ho]
    rfl
  rw [hglobals]
  exact ⟨hglob, get_settled (toOption_ok ho)⟩

/-- The numbers a key of a get or a lock asks for. -/
theorem get_item (cls : CommandClass GetOptions) {hd : Header GetOptions}
    {item : Option Value × Option Value} {req : LcbReq}
    (hreq : itemRequest cls GetCommand.request hd item = some req) :
    let merged := (GetCommand.own item.2).merge hd.globalOptions
    req.nums = { exptime := merged.lockTime.v.toNat
                 lock := if merged.lockTime.isFound then 1 else 0 } ∧
      GetSettled (GetCommand.own item.2) := by
  unfold itemRequest at hreq
  simp only [Option.bind_eq_bind, Option.bind_eq_some_iff] at hreq
  obtain ⟨hashkey, _, key, _, hreq⟩ := hreq
  obtain ⟨o, ho, rfl⟩ := Option.map_eq_some_iff.mp hreq
  obtain ⟨rfl, hsettled⟩ := get_options ho
  exact ⟨rfl, hsettled⟩

/-- **When a get or a lock makes the commands the documentation promises**: every key is locked,
    or has no expiry. -/
theorem get_documented_iff (hk : k = .get ∨ k = .lock) (hcall : lower k args h = some lcb) :
    List.Forall₂ (fun item req => GetCommand.Documented k (GetCommand.globals args)
        (GetCommand.own item.2) req.nums) (KeysInfo.setKeys (arg args 0)).items lcb.cmds ↔
      ∀ item ∈ (KeysInfo.setKeys (arg args 0)).items, NoExpiry k args item.2 := by
  rw [lower_call (byKey_gets hk)] at hcall
  obtain ⟨hd, hh, hreqs⟩ := call_requests hcall
  refine forall₂_iff_forall hreqs fun item req hreq => ?_
  rcases hk with rfl | rfl
  · obtain ⟨hglob, hset⟩ := get_globals GetCommand rfl rfl hh
    obtain ⟨hnums, hown⟩ := get_item GetCommand hreq
    rw [hnums, hglob]
    exact get_documented (.inl ⟨rfl, rfl⟩) hset hown
  · obtain ⟨hglob, hset⟩ := get_globals LockCommand rfl rfl hh
    obtain ⟨hnums, hown⟩ := get_item LockCommand hreq
    rw [hnums, hglob]
    exact get_documented (.inr ⟨rfl, rfl⟩) hset hown

end Get

/-! ## Store -/

section Store

variable {op : StorageOp} {args : List Value} {h : Heap} {glob own : StoreOptions}

/-- What a parse leaves in the slots of a store. -/
structure StoreSettled (o : StoreOptions) : Prop where
  exp : Settled o.exp
  cas : o.cas.isFound = false → o.cas.v = 0
  format : o.format.isFound = false → o.format.v = none

theorem store_settled {dict : Option Value} {o : StoreOptions}
    (h : parseAll dict StoreOptions.specs {} = .ok o) : StoreSettled o := by
  obtain ⟨hcas, hexp, hformat, _, _⟩ := store_parsed h
  obtain ⟨hfound, hv⟩ := value_of_read hformat
  refine ⟨settled_of_read hexp, cas_of_read hcas, fun hn => ?_⟩
  rw [hfound] at hn
  rw [hv]
  exact Option.isNone_iff_eq_none.mp (by simpa using hn)

omit [Runtime] in
/-- The handler finds the format the documentation speaks of. -/
theorem specObj_effective (hg : StoreSettled glob) :
    StoreCommand.specObj own glob = (effective own.format glob.format).join := by
  unfold StoreCommand.specObj effective
  by_cases ho : own.format.isFound
  · simp [ho]
  · by_cases hf : glob.format.isFound
    · simp [ho, hf]
    · simp [ho, hf, hg.format (by simpa using hf)]

omit [Runtime] in
/-- The format a store settled on is the documented one. -/
theorem documentedSpec_of_format {spec : ValueFormat.Spec} (hg : StoreSettled glob)
    (h : StoreCommand.format own glob = some spec) :
    StoreCommand.documentedSpec glob own = spec := by
  unfold StoreCommand.documentedSpec
  rw [← specObj_effective hg]
  exact (format_eq_some.mp h).1

/-- For a value with an encoding, only the flags of that encoding are in question. -/
theorem flagsAgree_iff {v : Value} {flags : Nat} {bytes : Bytes} (hv : own.value.v = some v)
    (henc : ValueFormat.encoding v (StoreCommand.documentedSpec glob own) = some (flags, bytes)) :
    StoreCommand.FlagsAgree glob own ↔
      own.flags.isFound = true ∨ glob.flags.isFound = false ∨ glob.flags.v.toNat = flags := by
  apply or_congr_right
  apply or_congr_right
  constructor
  · intro hsame
    exact hsame v flags bytes hv henc
  · intro hsame w flags' bytes' hw henc'
    obtain rfl := Option.some.inj (hv.symm.trans hw)
    rw [henc] at henc'
    obtain ⟨rfl, rfl⟩ := Prod.mk.inj (Option.some.inj henc')
    exact hsame

omit [Runtime] in
/-- The handler has the key's flags or those of the encoding. -/
theorem flags_effective {flags : Nat} :
    (if own.flags.isFound then own.flags.v.toNat else flags) =
        ((effective own.flags glob.flags).map Int.toNat).getD flags ↔
      own.flags.isFound = true ∨ glob.flags.isFound = false ∨ glob.flags.v.toNat = flags := by
  unfold effective
  by_cases hof : own.flags.isFound
  · simp [hof]
  · by_cases hgf : glob.flags.isFound
    · simp [hof, hgf, eq_comm]
    · simp [hof, hgf]

/-- **One key of a store**: everything but the flags is as documented. -/
theorem store_documented {v : Value} {flags : Nat} {bytes : Bytes} {spec : ValueFormat.Spec}
    {key hashkey : Option Bytes} (hg : StoreSettled glob) (ho : StoreSettled own)
    (hspec : StoreCommand.format own glob = some spec) (hv : own.value.v = some v)
    (henc : ValueFormat.encoding v spec = some (flags, bytes)) :
    StoreCommand.Documented glob own
        { LcbReq.keyed key hashkey (StoreCommand.nums op own glob flags {}) with
          bytes := some bytes } ↔ StoreCommand.FlagsAgree glob own := by
  have hdoc := documentedSpec_of_format hg hspec
  have hexp : (if own.exp.isFound then own.exp.v.toNat else glob.exp.v.toNat) =
      ((effective own.exp glob.exp).getD 0).toNat := by
    rw [← (effective_merged own.exp hg.exp).1]
    split <;> rfl
  have hcas : own.cas.v = if own.cas.isFound then own.cas.v else 0 := by
    by_cases hf : own.cas.isFound
    · rw [if_pos hf]
    · rw [if_neg hf, ho.cas (by simpa using hf)]
  rw [← hdoc] at henc
  rw [flagsAgree_iff hv henc, ← flags_effective]
  constructor
  · rintro ⟨_, _, w, flags', bytes', hw, henc', _, hflags⟩
    obtain rfl := Option.some.inj (hv.symm.trans hw)
    rw [henc] at henc'
    obtain ⟨rfl, rfl⟩ := Prod.mk.inj (Option.some.inj henc')
    exact hflags
  · intro hflags
    exact ⟨hexp, hcas, v, flags, bytes, hv, henc, rfl, hflags⟩

/-- The options of a store are those of its header. -/
theorem store_globals {hd : Header StoreOptions} (hh : header (StoreCommand op) args = some hd) :
    hd.globalOptions = StoreCommand.globals (arg args 1) ∧
      StoreSettled (StoreCommand.globals (arg args 1)) := by
  obtain ⟨o, ho, hglob⟩ := header_options hh
  have ho : (parseAll (some (arg args 1)) StoreOptions.specs {}).toOption = some o := ho
  have hglobals : StoreCommand.globals (arg args 1) = o := by
    unfold StoreCommand.globals
    rw [ho]
    rfl
  rw [hglobals]
  exact ⟨hglob, store_settled (toOption_ok ho)⟩

/-- What the request of a key was made of. -/
theorem store_item {hd : Header StoreOptions} {item : Option Value × Option Value} {req : LcbReq}
    (hg : StoreSettled hd.globalOptions) (hreq : storeRequest op hd item = some req) :
    StoreCommand.Documented hd.globalOptions (StoreCommand.own item.2) req ↔
      StoreCommand.FlagsAgree hd.globalOptions (StoreCommand.own item.2) := by
  unfold storeRequest itemRequest at hreq
  simp only [Option.bind_eq_bind, Option.bind_eq_some_iff] at hreq
  obtain ⟨hashkey, _, key, _, hreq⟩ := hreq
  unfold StoreCommand.request at hreq
  simp only [Option.bind_eq_bind, Option.bind_eq_some_iff] at hreq
  obtain ⟨p, hp, o, ho, spec, hspec, v, hv, ⟨flags, bytes⟩, henc, hreq⟩ := hreq
  cases hreq
  have hown : StoreCommand.own item.2 = o := by
    unfold StoreCommand.own
    rw [hp, ho]
    rfl
  rw [hown]
  exact store_documented hg (store_settled (toOption_ok ho)) hspec hv henc

/-- **The commands of a store are the documented ones when no flags of the call are lost.** -/
theorem store_commands_iff {lcb : LcbCall} (hcall : Command.call (.store op) args = some lcb) :
    let glob := StoreCommand.globals (arg args 1)
    List.Forall₂ (fun item req => StoreCommand.Documented glob (StoreCommand.own item.2) req)
        (callItems args) lcb.cmds ↔
      ∀ item ∈ callItems args, StoreCommand.FlagsAgree glob (StoreCommand.own item.2) := by
  intro glob
  obtain ⟨hd, hh, hreqs⟩ := call_requests hcall
  obtain ⟨hglob, hset⟩ := store_globals hh
  refine forall₂_iff_forall hreqs fun item req hreq => ?_
  have hitem := store_item (by rw [hglob]; exact hset) hreq
  rw [hglob] at hitem
  exact hitem

/-! ### A key without a value -/

/-- A request that is turned down through its callback. -/
def TurnedDown (k : Kind) (args : List Value) (h : Heap) : Prop :=
  ∃ st, accept k.cls args (Command.start h) = .refused st ∧
    bailOut args st.err = some (.invoked { fn := lastArg args, args := [st.err.asValue] })

/-- With a callback every refusal goes through it. -/
theorem turnedDown_iff {k : Kind} (hcb : (lastArg args).isFunction = true) :
    TurnedDown k args h ↔ ∃ st, accept k.cls args (Command.start h) = .refused st := by
  constructor
  · rintro ⟨st, hst, _⟩
    exact ⟨st, hst⟩
  · rintro ⟨st, hst⟩
    refine ⟨st, hst, ?_⟩
    have hlen : args.length ≠ 0 := by
      intro h0
      rw [List.eq_nil_of_length_eq_zero h0] at hcb
      cases hcb
    simp [bailOut, hcb, hlen]

theorem optionOf_none {p : Value} {name : String} (h : p.getRealNamedProperty name = none) :
    optionOf (some p) name = none := by
  unfold optionOf
  simp only [h, ite_self]

/-- A key without a value has no request. -/
theorem valueless_request {hd : Header StoreOptions} {item : Option Value × Option Value}
    (hv : StoreCommand.hasValue item.2 = false) : storeRequest op hd item = none := by
  rw [Option.eq_none_iff_forall_ne_some]
  intro req hreq
  unfold storeRequest itemRequest at hreq
  simp only [Option.bind_eq_bind, Option.bind_eq_some_iff] at hreq
  obtain ⟨hashkey, _, key, _, hreq⟩ := hreq
  unfold StoreCommand.request at hreq
  simp only [Option.bind_eq_bind, Option.bind_eq_some_iff] at hreq
  obtain ⟨p, hp, o, ho, spec, _, v, hval, _⟩ := hreq
  rw [hp] at hv
  have hget : p.getRealNamedProperty NameMap.value = none :=
    Option.isNone_iff_eq_none.mp (by simpa [StoreCommand.hasValue] using hv)
  obtain ⟨_, _, _, hvalue, _⟩ := store_parsed (toOption_ok ho)
  rw [(value_of_read hvalue).2, optionOf_none hget] at hval
  cases hval

/-- **A store with a key that has no value is turned down unless it crashes.** -/
theorem valueless_turnedDown_iff (hcb : (lastArg args).isFunction = true)
    (hv : ∃ item ∈ callItems args, StoreCommand.hasValue item.2 = false) :
    TurnedDown (.store op) args h ↔ ¬ Crashes op args := by
  rw [turnedDown_iff hcb, ← store_fault_iff (h := h)]
  show (∃ st, accept (StoreCommand op) args (Command.start h) = .refused st) ↔ _
  cases hacc : accept (StoreCommand op) args (Command.start h) with
  | fault => simp
  | refused st => simp
  | done hd st =>
    obtain ⟨reqs, hreqs, _, _, hkeys⟩ := accept_lowered (k := .store op) hacc
    obtain ⟨item, hitem, hval⟩ := hv
    have hnone := mapM_none (f := storeRequest op hd) hitem (valueless_request hval)
    unfold Command.requests at hreqs
    rw [hkeys] at hreqs
    exact absurd (hnone.symm.trans hreqs) nofun

end Store

/-! ### The store methods of a connection -/

section Multi

variable {m : Mutation} {op : StorageOp} {kv options : Props} {value callback : Value} {id : Nat}
  {h : Heap}

/-- A multi method called with some documents and options. -/
def multiCall (m : Mutation) (kv options : Props) (value callback : Value) : NativeCall :=
  m.invoke (m.argList (.object kv) value (.object options) callback)

/-- What is found in the options of an object, for a name that is not inherited. -/
theorem optionOf_object {ps : Props} {name : String} (hname : inheritedProperty name = none) :
    optionOf (some (.object ps)) name = ps.lookup name := by
  have hget : (Value.object ps).getRealNamedProperty name = ps.lookup name := by
    show (ps.lookup name).or (inheritedProperty name) = _
    rw [hname, Option.or_none]
  cases ps with
  | nil => rfl
  | cons p ps => exact hget

/-- A multi call adds `spooled` to its options and nothing else. -/
theorem multiOptions_lookup (hnd : (Assoc.keys options).Nodup) :
    ∃ ps, Connection.multiOptions (.object options) = .object ps ∧
      ∀ name, name ≠ NameMap.spooled → ps.lookup name = options.lookup name := by
  unfold Connection.multiOptions
  simp only [Value.truthy, Bool.not_true, Bool.false_eq_true, if_false]
  split
  · refine ⟨_, rfl, fun name hname => ?_⟩
    have hne : (name == NameMap.spooled) = false := by simpa using hname
    show (Assoc.writes options _).lookup name = _
    rw [Assoc.lookup_writes, Assoc.lookup_reverse hnd]
    simp [List.lookup_cons, hne]
  · exact ⟨options, rfl, fun _ _ => rfl⟩

/-- So the options of the store are those of the call. -/
theorem multi_globals (hnd : (Assoc.keys options).Nodup) :
    StoreCommand.globals (Connection.multiOptions (.object options)) =
      StoreCommand.globals (.object options) := by
  obtain ⟨ps, hps, hlook⟩ := multiOptions_lookup hnd
  have hobject (ps : Props) : OptionsObject (some (.object ps)) := by
    intro d hd hobj
    cases hd
    cases hobj
  unfold StoreCommand.globals
  rw [hps, parseAll_eq (hobject ps), parseAll_eq (hobject options)]
  congr 2
  refine parseWith_congr (fun sp hsp => ?_) _
  have hname : inheritedProperty sp.name = none ∧ sp.name ≠ NameMap.spooled := by
    simp only [StoreOptions.specs, List.mem_cons, List.not_mem_nil, or_false] at hsp
    rcases hsp with rfl | rfl | rfl | rfl | rfl <;> exact ⟨by decide, by decide⟩
  rw [optionOf_object hname.1, optionOf_object hname.1, hlook _ hname.2]

/-- **A store method keeps its promises**: the commands of an accepted call are the documented
    ones, and a call with a key that has no value is turned down through the callback. -/
structure Honoured (call : NativeCall) (id : Nat) (glob : StoreOptions) (h : Heap) : Prop where
  commands : ∀ lcb, lower call.target (call.args ++ [.function id]) h = some lcb →
    List.Forall₂ (fun item req => StoreCommand.Documented glob (StoreCommand.own item.2) req)
      (callItems (call.args ++ [.function id])) lcb.cmds
  valueless : (∃ item ∈ callItems (call.args ++ [.function id]),
      StoreCommand.hasValue item.2 = false) →
    TurnedDown call.target (call.args ++ [.function id]) h

/-- **When a store method keeps them**: no flags of an accepted call are lost, and a call with a
    key that has no value is turned down for another reason before it crashes. -/
theorem honoured_iff (hm : m.isMulti = true)
    (hop : (multiCall m kv options value callback).target = .store op)
    (hnd : (Assoc.keys options).Nodup) :
    let args := (multiCall m kv options value callback).args ++ [.function id]
    let glob := StoreCommand.globals (.object options)
    Honoured (multiCall m kv options value callback) id glob h ↔
      (Command.call (.store op) args ≠ none →
        ∀ item ∈ callItems args, StoreCommand.FlagsAgree glob (StoreCommand.own item.2)) ∧
      ((∃ item ∈ callItems args, StoreCommand.hasValue item.2 = false) → ¬ Crashes op args) := by
  intro args glob
  have hcb : (lastArg args).isFunction = true := by
    show (lastArg (_ ++ [Value.function id])).isFunction = true
    unfold lastArg
    rw [List.getLastD_eq_getLast?, List.getLast?_append]
    rfl
  -- `_multiHelper` puts `spooled` into the options and leaves those of the store alone
  have hglob : StoreCommand.globals (arg args 1) = glob := by
    obtain ⟨hargs, _⟩ := invoke_multi (.object kv) value (.object options) callback hm
    have harg : arg args 1 = Connection.multiOptions (.object options) := by
      show arg ((m.invoke (m.argList _ _ _ _)).args ++ [Value.function id]) 1 = _
      rw [hargs]
      rfl
    rw [harg]
    exact multi_globals hnd
  constructor
  · rintro ⟨hcommands, hvalueless⟩
    rw [hop] at hcommands hvalueless
    refine ⟨fun hcall => ?_, fun hv => (valueless_turnedDown_iff hcb hv).mp (hvalueless hv)⟩
    obtain ⟨lcb, hlcb⟩ := Option.ne_none_iff_exists'.mp hcall
    have hall := hcommands lcb (by rw [lower_call (byKey_store op)]; exact hlcb)
    rw [← hglob] at hall ⊢
    exact (store_commands_iff hlcb).mp hall
  · rintro ⟨hflags, hcrash⟩
    constructor <;> rw [hop]
    · intro lcb hlcb
      rw [lower_call (byKey_store op)] at hlcb
      have hall := hflags (by rw [hlcb]; exact nofun)
      rw [← hglob] at hall ⊢
      exact (store_commands_iff hlcb).mpr hall
    · intro hv
      exact (valueless_turnedDown_iff hcb hv).mpr (hcrash hv)

end Multi

end Proof

section Example

open scoped SmallRuntime

def lockFive : Value := .object [("locktime", .number (.fin 5))]

/-- Two gets with a lock time, one of them with its own. -/
def lockPair : List Value :=
  [.object [("a", .object []), ("b", .object [("locktime", .number (.fin 7))])], lockFive,
    .function 1]

theorem Proof.get_documented_iff_lock : ∃ lcb,
    Proof.lower .get lockPair [] = some lcb ∧
      lcb.cmds.map (fun req => (req.nums.lock, req.nums.exptime)) = [(1, 5), (1, 7)] ∧
      List.Forall₂ (fun item req => GetCommand.Documented .get (GetCommand.globals lockPair)
        (GetCommand.own item.2) req.nums)
        (KeysInfo.setKeys (Command.arg lockPair 0)).items lcb.cmds := by
  obtain ⟨lcb, hcall, hnums⟩ := (Option.any_eq_true _ _).mp
    (show (Proof.lower .get lockPair []).any (fun lcb =>
      lcb.cmds.map (fun req => (req.nums.lock, req.nums.exptime)) = [(1, 5), (1, 7)]) = true by
        decide +kernel)
  refine ⟨lcb, hcall, of_decide_eq_true hnums,
    (Proof.get_documented_iff (.inl rfl) hcall).mpr ?_⟩
  intro item hitem
  rcases List.mem_cons.mp hitem with rfl | hitem
  · exact .inr (.inl (by decide +kernel))
  · rw [List.mem_singleton.mp hitem]
    exact .inr (.inl (by decide +kernel))

def getExpiryFive : List Value :=
  [.string "a", .object [("expiry", .number (.fin 5))], .function 1]

/-- A get with an expiry: the command has none. -/
theorem Proof.get_expiry_lost : ∃ lcb, Proof.lower .get getExpiryFive [] = some lcb ∧
    lcb.cmds.map (fun req => (req.nums.lock, req.nums.exptime)) = [(0, 0)] ∧
    ¬ List.Forall₂ (fun item req => GetCommand.Documented .get (GetCommand.globals getExpiryFive)
        (GetCommand.own item.2) req.nums)
      (KeysInfo.setKeys (Command.arg getExpiryFive 0)).items lcb.cmds := by
  have htest : (Proof.lower .get getExpiryFive []).any (fun lcb =>
      lcb.cmds.map (fun req => (req.nums.lock, req.nums.exptime)) = [(0, 0)]) = true := by
    decide +kernel
  obtain ⟨lcb, hcall, hnums⟩ := (Option.any_eq_true _ _).mp htest
  have hnums := of_decide_eq_true hnums
  refine ⟨lcb, hcall, hnums, fun hdoc => ?_⟩
  have hitems : (KeysInfo.setKeys (Command.arg getExpiryFive 0)).items = [(some (.string "a"), none)] := rfl
  rw [hitems] at hdoc
  obtain ⟨req, rest, hreq, _, hcmds⟩ := List.forall₂_cons_left_iff.mp hdoc
  rw [hcmds] at hnums
  have hfive : ((effective (GetCommand.own none).expTime
      (GetCommand.globals getExpiryFive).expTime).getD 0).toNat = 5 := by decide +kernel
  have hlock : (effective (GetCommand.own none).lockTime
      (GetCommand.globals getExpiryFive).lockTime).isSome = false := by decide +kernel
  unfold GetCommand.Documented at hreq
  simp only [hlock, hfive, reduceCtorEq, Bool.false_eq_true, or_self, if_false] at hreq
  simp only [List.map_cons, List.cons.injEq, Prod.mk.injEq, hreq.2] at hnums
  omega

/-- `setMulti({a: {value: "x"}}, {})` keeps its promises. -/
theorem Proof.honoured_iff_plain :
    Proof.Honoured (Proof.multiCall .setMulti [("a", .object [("value", .string "x")])] [] .undefined
      (.function 0)) 1 (StoreCommand.globals (.object [])) [] := by
  have hnd : (Assoc.keys ([] : Props)).Nodup := List.nodup_nil
  refine (Proof.honoured_iff rfl rfl hnd).mpr ⟨fun _ item _ => ?_, ?_⟩
  · exact .inr (.inl (by decide +kernel))
  · rintro ⟨item, hitem, hvalue⟩
    rw [List.mem_singleton.mp hitem] at hvalue
    exact absurd hvalue (by decide +kernel)

def flagsFive : Props := [("flags", .number (.fin 5))]

def setFlagsFive : NativeCall :=
  Proof.multiCall .setMulti [("a", .object [("value", .string "x")])] flagsFive .undefined
    (.function 0)

def setNothing : NativeCall :=
  Proof.multiCall .setMulti [("a", .object [])] [] .undefined (.function 0)

/-- Flags for all keys are lost, and a key without a value crashes the handler. -/
theorem Proof.store_flags_lost :
    (∃ lcb, Proof.lower setFlagsFive.target (setFlagsFive.args ++ [.function 1]) [] = some lcb ∧
      lcb.cmds.map (·.nums.flags) = [4]) ∧
    ¬ Proof.Honoured setFlagsFive 1 (StoreCommand.globals (.object flagsFive)) [] ∧
    Command.accept (StoreCommand .set) (setNothing.args ++ [.function 1]) (Command.start []) =
      .fault ∧
    ¬ Proof.Honoured setNothing 1 (StoreCommand.globals (.object [])) [] := by
  have htest : (Proof.lower setFlagsFive.target (setFlagsFive.args ++ [.function 1]) []).any
      (fun lcb => lcb.cmds.map (·.nums.flags) = [4]) = true := by decide +kernel
  obtain ⟨lcb, hcall, hflags⟩ := (Option.any_eq_true _ _).mp htest
  have hflags := of_decide_eq_true hflags
  have hfault := Outcome.eq_fault (Command.accept (StoreCommand .set)
    (setNothing.args ++ [.function 1]) (Command.start [])) (by decide +kernel)
  refine ⟨⟨lcb, hcall, hflags⟩, fun hon => ?_, hfault, fun hon => ?_⟩
  · have hdoc := hon.commands lcb hcall
    have hitems : Proof.callItems (setFlagsFive.args ++ [.function 1]) =
        [(some (.string "a"), some (.object [("value", .string "x")]))] := rfl
    rw [hitems] at hdoc
    obtain ⟨req, rest, hreq, _, hcmds⟩ := List.forall₂_cons_left_iff.mp hdoc
    rw [hcmds] at hflags
    obtain ⟨_, encoded, _, _, _, _, five⟩ := hreq.value
    have hfive : ((effective (StoreCommand.own (some (.object [("value", .string "x")]))).flags
        (StoreCommand.globals (.object flagsFive)).flags).map Int.toNat) = some 5 := by
      decide +kernel
    rw [hfive, Option.getD_some] at five
    rw [List.map_cons, five] at hflags
    cases hflags
  · obtain ⟨st, hst, _⟩ := hon.valueless ⟨_, List.mem_singleton.mpr rfl, by decide +kernel⟩
    have hst : Command.accept (StoreCommand .set) (setNothing.args ++ [.function 1])
        (Command.start []) = .refused st := hst
    rw [hfault] at hst
    cases hst

end Example

end Couchnode
