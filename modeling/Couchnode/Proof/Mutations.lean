import Couchnode.Proof.Answers
import Couchnode.Proof.Calls

/-!
# What a mutation does natively

The native methods behind the mutations look up what they are asked for in a `kv` object: one
command for each property, under the property's name (`execute_keys`). `Replies` is libcouchbase
answering each of those commands once; `mutation_answered` is what the cookie makes of that, and
`mode_single` and `mode_options` are which mode it is in.
-/

set_option autoImplicit false

namespace Couchnode

/-- The CAS a response to a mutation carries. -/
def Resp.mutated : Resp → Option Nat
  | .store cas => some cas
  | .arithmetic cas _ => some cas
  | .remove cas => some cas
  | _ => none

namespace Proof

open Command

variable [Runtime]

/-- libcouchbase answers every command once, in any order, by its key. -/
def RepliesTo (lcb : LcbCall) (rs : List Cookie.Response) : Prop :=
  (rs.map fun r => some r.key).Perm (lcb.cmds.map (·.key))

/-- The replies to a mutation. -/
structure Replies (lcb : LcbCall) (rs : List Cookie.Response) : Prop where
  keys : (rs.map fun r => some r.key).Perm (lcb.cmds.map (·.key))
  mutated : ∀ r ∈ rs, r.resp.mutated.isSome = true

/-- The native methods that are given a `kv` object: the mutations, and the check of their
    durability. -/
def Keyed (k : Kind) : Prop := Mutates k ∨ k = .endure

section Native

variable {k : Kind} {args : List Value} {h : Heap} {hd : Header k.Opts} {st : PState} {kv : Props}
  {lcb : LcbCall} {rs : List Cookie.Response}

theorem Keyed.plain (hk : Keyed k) : k.cls.cookieKind = .plain := by
  rcases hk with (⟨op, rfl⟩ | rfl | rfl) | rfl <;> rfl

/-- Each key is asked for under its own text. -/
theorem itemRequest_key (hk : Keyed k) {name : String} {options : Option Value} {req : LcbReq}
    (hreq : itemRequest k.cls k.request hd (some (.string name), options) = some req) :
    req.key = some (utf8 name) ∧ utf8 name ≠ [] := by
  unfold itemRequest at hreq
  simp only [Option.bind_eq_bind, Option.bind_eq_some_iff] at hreq
  obtain ⟨hashkey, _, key, hkey, hreq⟩ := hreq
  have hname : key = utf8 name ∧ utf8 name ≠ [] := by
    have hdflt : k.cls.getDefaultString = none := by
      rcases hk with (⟨op, rfl⟩ | rfl | rfl) | rfl <;> rfl
    rw [hdflt] at hkey
    by_cases hempty : utf8 name = []
    · simp [backedString, Value.isString, Value.toName, hempty] at hkey
    · refine ⟨?_, hempty⟩
      simpa [backedString, Value.isString, Value.toName, hempty] using hkey.symm
  refine ⟨?_, hname.2⟩
  rw [← hname.1]
  rcases hk with (⟨op, rfl⟩ | rfl | rfl) | rfl
  · change StoreCommand.request op hd.globalOptions (some key) hashkey options = some req at hreq
    unfold StoreCommand.request at hreq
    simp only [Option.bind_eq_bind, Option.bind_eq_some_iff] at hreq
    obtain ⟨_, _, _, _, _, _, _, _, ⟨_, _⟩, _, hreq⟩ := hreq
    cases hreq
    rfl
  · obtain ⟨_, _, rfl⟩ := Option.map_eq_some_iff.mp hreq
    rfl
  · obtain ⟨_, _, rfl⟩ := Option.map_eq_some_iff.mp hreq
    rfl
  · obtain ⟨_, _, rfl⟩ := Option.map_eq_some_iff.mp hreq
    rfl

omit [Runtime] in
/-- Commands that each ask for a name have these names as their keys. -/
theorem keys_of_forall₂ {α : Type} {nameOf : α → String} {items : List α} {reqs : List LcbReq}
    (h : List.Forall₂ (fun item req => req.key = some (utf8 (nameOf item)) ∧ utf8 (nameOf item) ≠ [])
      items reqs) :
    reqs.map (·.key) = items.map (fun item => some (utf8 (nameOf item))) ∧
      ∀ item ∈ items, utf8 (nameOf item) ≠ [] := by
  induction h with
  | nil => exact ⟨rfl, fun _ hn => absurd hn List.not_mem_nil⟩
  | cons hx _ ih =>
    refine ⟨by rw [List.map_cons, List.map_cons, hx.1, ih.1], fun item hi => ?_⟩
    rcases List.mem_cons.mp hi with rfl | hi
    · exact hx.2
    · exact ih.2 item hi

/-- **What libcouchbase is asked for**: every property of the `kv` object, in order. -/
theorem execute_keys (hk : Keyed k) (hacc : accept k.cls args (Command.start h) = .done hd st)
    (harg : arg args 0 = .object kv)
    (hexec : (withCookie k hd st).execute k.cls st.heap = some lcb) :
    lcb.cmds.map (·.key) = (Assoc.keys kv).map (fun name => some (utf8 name)) ∧
      ∀ name ∈ Assoc.keys kv, utf8 name ≠ [] := by
  obtain ⟨reqs, hreqs, _, _, hready⟩ := accept_ready hacc
    (some ((ofState hd st).createCookie k.cls))
  obtain ⟨_, _, _, _, hkeys⟩ := accept_lowered hacc
  rw [harg] at hkeys
  have hitems : hd.keys.items = (Assoc.keys kv).map fun name =>
      (some (.string name), some ((Value.object kv).getProperty name)) := by
    rw [hkeys]
    rfl
  have hsize : k.cls.listSize hd.keys = reqs.length := by
    have hlist : k.cls.listSize = KeysInfo.ncmds := by
      rcases hk with (⟨op, rfl⟩ | rfl | rfl) | rfl <;> rfl
    rw [← (forall₂_of_mapM hreqs).length_eq, hlist, hkeys]
    exact (items_length _).symm
  have hall : lowered (k.cls.listSize hd.keys) reqs = reqs := by
    rw [lowered, hsize, Nat.sub_self, List.replicate_zero, List.append_nil]
  have hexec' : (withCookie k hd st).execute k.cls st.heap = _ := execute_ready hready
    fun hhttp => absurd (hk.plain.symm.trans hhttp) (by decide)
  rw [hall] at hexec'
  obtain rfl := Option.some.inj (hexec.symm.trans hexec')
  -- each command is the request of one property
  have hreqs := forall₂_of_mapM hreqs
  rw [hitems, List.forall₂_map_left_iff] at hreqs
  exact keys_of_forall₂ (hreqs.imp fun _ _ hreq => itemRequest_key hk hreq)

/-- **The replies to a request that asks for some names**: they are to these names, and the cookie
    reports them all. -/
theorem asked_answered {α : Type} {items : List α} {nameOf : α → String}
    (hplain : k.cls.cookieKind = .plain)
    (hacc : accept k.cls args (Command.start h) = .done hd st)
    (hlen : items.length = (KeysInfo.setKeys (arg args 0)).ncmds)
    (hcmds : lcb.cmds.map (·.key) = items.map fun item => some (utf8 (nameOf item)))
    (hne : ∀ item ∈ items, utf8 (nameOf item) ≠ []) (hrs : RepliesTo lcb rs) :
    let c := (ofState hd st).createCookie k.cls
    (rs.map (·.key)).Perm (items.map fun item => utf8 (nameOf item)) ∧
      (∀ r ∈ rs, ∃ item ∈ items, r.key = utf8 (nameOf item)) ∧
      Answered c (rs.map fun r => c.responseInfo r) fun m => Cookie.receiveAll (rs.take m) c := by
  intro c
  have hperm : (rs.map (·.key)).Perm (items.map fun item => utf8 (nameOf item)) := by
    have hsome : (rs.map fun r => some r.key).Perm (lcb.cmds.map (·.key)) := hrs
    rw [hcmds] at hsome
    have hbytes := hsome.filterMap id
    simpa [List.filterMap_map, Function.comp_def] using hbytes
  have hkey (r : Cookie.Response) (hr : r ∈ rs) : ∃ item ∈ items, r.key = utf8 (nameOf item) := by
    obtain ⟨item, hi, he⟩ := List.mem_map.mp (hperm.mem_iff.mp (List.mem_map_of_mem hr))
    exact ⟨item, hi, he.symm⟩
  refine ⟨hperm, hkey, ?_⟩
  -- as many replies as the cookie waits for
  obtain ⟨hpos, hlist, hun⟩ := counted_keys hacc (.inl hplain)
  have hcount : rs.length = (ofState hd st).commands.ncmds := by
    obtain ⟨_, _, _, _, hkeys⟩ := accept_lowered hacc
    rw [← hlist, ← List.length_map (·.key), hperm.length_eq, List.length_map, hlen]
    show _ = hd.keys.getSafeKeysArray.length
    rw [hkeys, getSafeKeysArray_length]
  rw [← hcount] at hun hpos
  refine receive_answered hun hpos fun r hr => ?_
  obtain ⟨item, hi, he⟩ := hkey r hr
  rw [he]
  exact hne item hi

/-- The names the responses come under, and what the cookie reports of them. -/
theorem keyed_answered (hnew : StringNewInverse) (hk : Keyed k)
    (hacc : accept k.cls args (Command.start h) = .done hd st) (harg : arg args 0 = .object kv)
    (hexec : (withCookie k hd st).execute k.cls st.heap = some lcb) (hrs : RepliesTo lcb rs) :
    let c := (ofState hd st).createCookie k.cls
    (rs.map fun r => Runtime.stringNew r.key).Perm (Assoc.keys kv) ∧
      (∀ r ∈ rs, r.key = utf8 (Runtime.stringNew r.key)) ∧
      Answered c (rs.map fun r => c.responseInfo r) fun m => Cookie.receiveAll (rs.take m) c := by
  intro c
  obtain ⟨hcmds, hne⟩ := execute_keys hk hacc harg hexec
  have hlen : (Assoc.keys kv).length = (KeysInfo.setKeys (arg args 0)).ncmds := by
    rw [harg]
    rfl
  obtain ⟨hperm, hname, hans⟩ := asked_answered hk.plain hacc hlen hcmds hne hrs
  refine ⟨?_, ?_, hans⟩
  · have hstr := hperm.map Runtime.stringNew
    simpa [List.map_map, Function.comp_def, show ∀ s, Runtime.stringNew (utf8 s) = s from hnew]
      using hstr
  · intro r hr
    obtain ⟨name, _, he⟩ := hname r hr
    rw [he, hnew name]

theorem mutation_answered (hnew : StringNewInverse) (hk : Mutates k)
    (hacc : accept k.cls args (Command.start h) = .done hd st) (harg : arg args 0 = .object kv)
    (hexec : (withCookie k hd st).execute k.cls st.heap = some lcb) (hrs : Replies lcb rs) :
    let c := (ofState hd st).createCookie k.cls
    (rs.map fun r => Runtime.stringNew r.key).Perm (Assoc.keys kv) ∧
      (∀ r ∈ rs, r.key = utf8 (Runtime.stringNew r.key)) ∧
      Answered c (rs.map fun r => c.responseInfo r) fun m => Cookie.receiveAll (rs.take m) c :=
  keyed_answered hnew (.inl hk) hacc harg hexec hrs.keys

omit [Runtime] in
theorem initCookie_mode {O : Type} (c : Command O) (cookie : Cookie) :
    (c.initCookie cookie).cbType =
      if c.isSpooled.isFound && c.isSpooled.v then .spooled else .single := by
  unfold Command.initCookie Cookie.setCallback
  dsimp only
  split <;> split <;> rfl

/-- The mode of a request is what its options say. -/
theorem createCookie_mode (hk : Keyed k)
    (hacc : accept k.cls args (Command.start h) = .done hd st) :
    ∃ common, ParamSlot.parseAll (some (arg args 1)) commonSlots {} = .ok common ∧
      ((ofState hd st).createCookie k.cls).cbType =
        if common.isSpooled.isFound && common.isSpooled.v then .spooled else .single := by
  obtain ⟨hd', s₁, hi, hacc⟩ := Prog.bind_eq_done.mp hacc
  obtain ⟨_, s₂, _, hacc⟩ := Prog.bind_eq_done.mp hacc
  cases hacc
  obtain ⟨_, s₃, _, hi⟩ := Prog.bind_eq_done.mp hi
  obtain ⟨opts, s₄, _, hi⟩ := Prog.bind_eq_done.mp hi
  obtain ⟨⟨cb, common⟩, s₅, hc, hi⟩ := Prog.bind_eq_done.mp hi
  cases hi
  obtain ⟨cb', s₆, _, hc⟩ := Prog.bind_eq_done.mp hc
  obtain ⟨common', s₇, hparse, hc⟩ := Prog.bind_eq_done.mp hc
  obtain ⟨hparse, _⟩ := liftParsed_done hparse
  refine ⟨common', hparse, ?_⟩
  have hcommon : common = common' := by
    split at hc
    · exact (fail_done hc).elim
    · cases hc
      rfl
  subst hcommon
  rcases hk with (⟨op, rfl⟩ | rfl | rfl) | rfl <;> exact initCookie_mode _ _

/-- The options of a call say whether it is spooled. -/
theorem common_spooled {ps : Props} {v : Value} {common : CommonOptions}
    (hs : ps.lookup NameMap.spooled = some v)
    (hp : ParamSlot.parseAll (some (.object ps)) commonSlots {} = .ok common) :
    common.isSpooled = { v := v.truthy, status := .found } := by
  cases ps with
  | nil => cases hs
  | cons p ps =>
    have hget : (Value.object (p :: ps)).getRealNamedProperty NameMap.spooled = some v := by
      show ((p :: ps).lookup NameMap.spooled).or _ = _
      rw [hs]
      rfl
    have hfirst : ParamSlot.parseSpecs (.object (p :: ps)) commonSlots {} =
        ParamSlot.parseSpecs (.object (p :: ps)) commonSlots.tail
          { isSpooled := { v := v.truthy, status := .found } } :=
      ParamSlot.parseSpecs_ok hget rfl
    have hp := hfirst.symm.trans hp
    simp only [commonSlots, List.tail_cons] at hp
    -- reading the hashkey leaves the mode alone
    unfold ParamSlot.parseSpecs at hp
    split at hp
    · cases hp
      rfl
    · split at hp
      · next hparse =>
        cases hp
        simp only [ParamSlot.field] at hparse
        split at hparse <;> cases hparse
        rfl
      · cases hp
      · cases hp

/-- A single call passes `null`, or its callback, where the options would be. -/
theorem mode_single (hk : Mutates k) (hacc : accept k.cls args (Command.start h) = .done hd st)
    (harg : arg args 1 = .null ∨ ∃ f, arg args 1 = .function f) :
    ((ofState hd st).createCookie k.cls).cbType = .single := by
  obtain ⟨common, hcommon, hmode⟩ := createCookie_mode (.inl hk) hacc
  rw [hmode]
  rcases harg with harg | ⟨f, harg⟩
  all_goals
    rw [harg] at hcommon
    cases hcommon
    rfl

theorem mode_options (hk : Keyed k) (hacc : accept k.cls args (Command.start h) = .done hd st)
    {ps : Props} {v : Value} (harg : arg args 1 = .object ps)
    (hs : ps.lookup NameMap.spooled = some v) :
    ((ofState hd st).createCookie k.cls).cbType = if v.truthy then .spooled else .single := by
  obtain ⟨common, hcommon, hmode⟩ := createCookie_mode hk hacc
  rw [harg] at hcommon
  rw [hmode, common_spooled hs hcommon]
  rfl

/-- The calls a cookie has made when all responses are in. -/
theorem final_calls {c : Cookie}
    (hans : Answered c (rs.map fun r => c.responseInfo r) fun m => Cookie.receiveAll (rs.take m) c) :
    (c.cbType = .single → (Cookie.receiveAll rs c).calls =
        (rs.map fun r => c.responseInfo r).map (singleCall c)) ∧
      (c.cbType = .spooled → ∃ results, Results (rs.map fun r => c.responseInfo r) results ∧
        ∃ anyFailed, (Cookie.receiveAll rs c).calls = [finalCall c results anyFailed]) := by
  refine ⟨fun hmode => ?_, fun hmode => ?_⟩
  · have hcalls := hans.single hmode rs.length (by simp)
    rw [List.take_length, List.take_of_length_le (by simp)] at hcalls
    exact hcalls
  · obtain ⟨results, hres, hcalls⟩ := hans.spooled hmode
    rw [List.take_of_length_le (by simp)] at hcalls
    exact ⟨results, hres, _, hcalls⟩

end Native

end Proof

end Couchnode
