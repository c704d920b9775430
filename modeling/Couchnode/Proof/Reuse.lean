import Couchnode.Js.Connection
import Couchnode.Proof.Cas
import Couchnode.Proof.Durability
import Couchnode.Proof.KeyFormats
import Couchnode.Proof.Traffic

/-!
# Results handed on

The `kv` of `unlockMulti` is typically the result of a previous `lockMulti`, "as the CAS is already
in the result"; `removeMulti` and `endureMulti` take results the same way. `results_reused` says
what such a call asks for: one command for every key that was answered, under its own bytes, with
the CAS of its last answer.

`lastReply` is that answer, and `Cookie.Response.cas` the CAS an answer carries, which a failed one
does not. An unlock needs the CAS of every key, so results with a failure in them unlock nothing.
-/

set_option autoImplicit false

namespace Couchnode

/-- The CAS the application can find in an answer. -/
def Cookie.Response.cas (r : Cookie.Response) : Option Nat :=
  match r.resp with
  | .durability cas .. => some cas
  | .get _ cas _ | .store cas | .arithmetic cas _ | .touch cas | .remove cas =>
    if r.err = LCB_SUCCESS then some cas else none
  | .unlock => none

/-- A CAS has 64 bits. -/
def Answer.Fits : Answer → Prop
  | .keyed r => ∀ n ∈ r.cas, n < 2 ^ 64
  | _ => True

instance : DecidablePred Answer.Fits
  | .keyed r => inferInstanceAs (Decidable (∀ n ∈ r.cas, n < 2 ^ 64))
  | .observed _ | .stat _ | .http _ _ => .isTrue trivial

/-- The last answer to a key, by the name the key has in the results. -/
def lastReply [Runtime] (rs : List Cookie.Response) (name : String) : Option Cookie.Response :=
  rs.reverse.find? fun r => Runtime.stringNew r.key = name

/-- The classes that take a CAS for each key. -/
def Kind.TakesCas (k : Kind) : Prop := k = .unlock ∨ k = .delete ∨ k = .endure

/-- The CAS such a command is sent with; an unlock needs one. -/
def Kind.casOf (k : Kind) (cas : Option Nat) : Option Nat :=
  match k with
  | .unlock => cas
  | _ => some (cas.getD 0)

/-- The commands for some keys, each with the CAS of the last answer to it. -/
def Kind.handOn [Runtime] (k : Kind) (rs : List Cookie.Response) (names : List String) :
    Option (List LcbReq) :=
  names.mapM fun name =>
    (k.casOf ((lastReply rs name).bind (·.cas))).map fun n =>
      .keyed (some (utf8 name)) none { cas := n }

namespace Proof

open Command

variable [Runtime]

/-! ## One answer -/

section Answer

variable {c : Cookie} {r : Cookie.Response}

/-- What a CAS is stored under in the fields of an answer. -/
theorem payload_cas :
    ((c.responseInfo r).payload.getD []).lookup NameMap.cas = r.cas.map Cas.createCas := by
  obtain ⟨err, key, resp⟩ := r
  cases resp with
  | durability cas respErr existsMaster persistedMaster =>
    cases existsMaster <;> cases persistedMaster <;> rfl
  | get | store | arithmetic | touch | remove =>
    by_cases he : err = LCB_SUCCESS
    · simp only [Cookie.responseInfo, ResponseInfo.ofResp, Cookie.Response.cas, if_pos he]
      rfl
    · simp only [Cookie.responseInfo, ResponseInfo.ofResp, Cookie.Response.cas, if_neg he]
      rfl
  | unlock =>
    by_cases he : err = LCB_SUCCESS
    · simp only [Cookie.responseInfo, ResponseInfo.ofResp, if_pos he]
      rfl
    · simp only [Cookie.responseInfo, ResponseInfo.ofResp, if_neg he]
      rfl

theorem responseInfo_payload :
    (c.responseInfo r).payload = some ((c.responseInfo r).payload.getD []) := by
  obtain ⟨err, key, resp⟩ := r
  cases resp <;> rfl

/-- What an answer has fields for. -/
def answerFields : List String :=
  [NameMap.cas, NameMap.flags, NameMap.value, NameMap.durFoundMaster, NameMap.durPersistedMaster,
   NameMap.durNPersisted, NameMap.durNReplicated]

theorem fields_names (keyOption : Option Value) (resp : Resp) :
    ∀ name ∈ Assoc.keys (ResponseInfo.fields keyOption resp), name ∈ answerFields := by
  cases resp with
  | get => exact show ∀ name ∈ [NameMap.cas, NameMap.flags, NameMap.value], _ by decide
  | store | touch | remove => exact show ∀ name ∈ [NameMap.cas], _ by decide
  | arithmetic => exact show ∀ name ∈ [NameMap.cas, NameMap.value], _ by decide
  | unlock => exact nofun
  | durability cas respErr existsMaster persistedMaster =>
    have hall : ∀ name ∈ [NameMap.durFoundMaster, NameMap.durPersistedMaster,
        NameMap.durNPersisted, NameMap.durNReplicated, NameMap.cas], name ∈ answerFields := by
      decide
    intro name hname
    refine hall name ?_
    cases existsMaster <;> cases persistedMaster
    · exact .tail _ (.tail _ hname)
    · exact .tail _ hname
    · rcases List.mem_cons.mp hname with rfl | hname
      · exact .head _
      · exact .tail _ (.tail _ hname)
    · exact hname

/-- No answer has anything else: no options come from it. -/
theorem payload_other {name : String} (hname : name ∉ answerFields) :
    ((c.responseInfo r).payload.getD []).lookup name = none := by
  have hnone (keyOption : Option Value) (resp : Resp) :
      (ResponseInfo.fields keyOption resp).lookup name = none := by
    rw [List.lookup_eq_none_iff]
    intro p hp
    have hne : name ≠ p.1 := by
      rintro rfl
      exact hname (fields_names keyOption resp _ (List.mem_map_of_mem hp))
    simpa using hne
  obtain ⟨err, key, resp⟩ := r
  cases resp with
  | durability =>
    simp only [Cookie.responseInfo, ResponseInfo.ofResp, Option.getD_some]
    exact hnone _ _
  | get | store | arithmetic | touch | remove | unlock =>
    simp only [Cookie.responseInfo, ResponseInfo.ofResp, Option.getD_some]
    split
    · exact hnone _ _
    · rfl

/-- No field of an answer is there twice. -/
theorem fields_nodup (keyOption : Option Value) (resp : Resp) :
    (Assoc.keys (ResponseInfo.fields keyOption resp)).Nodup := by
  cases resp with
  | get => exact show [NameMap.cas, NameMap.flags, NameMap.value].Nodup by decide
  | store | touch | remove => exact List.nodup_singleton NameMap.cas
  | arithmetic => exact show [NameMap.cas, NameMap.value].Nodup by decide
  | unlock => exact List.nodup_nil
  | durability cas respErr existsMaster persistedMaster =>
    have hall : [NameMap.durFoundMaster, NameMap.durPersistedMaster, NameMap.durNPersisted,
      NameMap.durNReplicated, NameMap.cas].Nodup := by decide
    refine hall.sublist ?_
    cases existsMaster <;> cases persistedMaster
    · exact .cons _ (.cons _ (.refl _))
    · exact .cons _ (.refl _)
    · exact .cons_cons _ (.cons _ (.refl _))
    · exact .refl _

theorem payload_nodup : (Assoc.keys ((c.responseInfo r).payload.getD [])).Nodup := by
  obtain ⟨err, key, resp⟩ := r
  cases resp with
  | durability =>
    simp only [Cookie.responseInfo, ResponseInfo.ofResp, Option.getD_some]
    exact fields_nodup _ _
  | get | store | arithmetic | touch | remove | unlock =>
    simp only [Cookie.responseInfo, ResponseInfo.ofResp, Option.getD_some]
    split
    · exact fields_nodup _ _
    · exact List.nodup_nil

end Answer

/-! ## One key of the next call -/

section Options

open ParamSlot (parseAll parseAll_object parseSpecs_ok parseSpecs_none field_ok)

variable {O : Type} {ps : Props} {cur : ParamSlot O} {o o' : O} {val : Value}

/-- The only option that is asked for is there. -/
theorem parseAll_one_found (hget : ps.lookup cur.name = some val)
    (hparse : cur.parseValue val o = .ok o') :
    parseAll (some (.object ps)) [cur] o = .ok o' := by
  cases ps with
  | nil => cases hget
  | cons p ps =>
    have hreal : (Value.object (p :: ps)).getRealNamedProperty cur.name = some val := by
      show ((p :: ps).lookup cur.name).or _ = _
      rw [hget]
      rfl
    rw [parseAll_object, parseSpecs_ok hreal hparse]
    rfl

/-- It is not there. -/
theorem parseAll_one_none (hget : ps.lookup cur.name = none)
    (hproto : inheritedProperty cur.name = none) :
    parseAll (some (.object ps)) [cur] o = .ok o := by
  cases ps with
  | nil => rfl
  | cons p ps =>
    have hreal : (Value.object (p :: ps)).getRealNamedProperty cur.name = none := by
      show ((p :: ps).lookup cur.name).or _ = _
      rw [hget]
      exact hproto
    rw [parseAll_object, parseSpecs_none hreal]
    rfl

end Options

section Item

variable {k : Kind} {fields : Props} {cas : Option Nat} {hd : Header k.Opts} {name : String}

/-- The slot for a CAS, from the fields of an answer. -/
theorem parse_heldCas (hcas : fields.lookup NameMap.cas = cas.map Cas.createCas)
    (hlt : ∀ n, cas = some n → n < 2 ^ 64) :
    ParamSlot.parseAll (some (.object fields)) UnlockOptions.specs {} =
        .ok { cas := match cas with
          | some n => { v := n, status := .found }
          | none => { v := 0 } } ∧
      ParamSlot.parseAll (some (.object fields)) EndureCommand.casSlots { v := 0 } =
        .ok (match cas with
          | some n => { v := n, status := .found }
          | none => { v := 0 }) := by
  cases cas with
  | none =>
    exact ⟨parseAll_one_none hcas (by decide), parseAll_one_none hcas (by decide)⟩
  | some n =>
    have hparse (s : Slot Nat) :
        CasSlot.parseValue (Cas.createCas n) s = .ok { v := n, status := .found } := by
      unfold CasSlot.parseValue
      rw [getCas_createCas (hlt n rfl)]
      rfl
    exact ⟨parseAll_one_found hcas (ParamSlot.field_ok (hparse _)),
      parseAll_one_found hcas (ParamSlot.field_ok (hparse _))⟩

/-- **One key of the results**: its name, with the CAS found there. -/
theorem item_reused (hk : k.TakesCas) (hcas : fields.lookup NameMap.cas = cas.map Cas.createCas)
    (hlt : ∀ n, cas = some n → n < 2 ^ 64) (hhash : fields.lookup NameMap.hashkey = none)
    (hg : hd.globalHashkey.isFound = false) (hname : utf8 name ≠ []) :
    itemRequest k.cls k.request hd (some (.string name), some (.object fields)) =
      (k.casOf cas).map fun n => .keyed (some (utf8 name)) none { cas := n } := by
  obtain ⟨hunlock, hendure⟩ := parse_heldCas hcas hlt
  have hhashkey : hashkeyText k.cls hd (some (.object fields)) = some none := by
    unfold hashkeyText
    have hnone : ParamSlot.parseAll (some (.object fields)) hashkeySlots { v := none } =
        .ok { v := none } :=
      parseAll_one_none hhash (show inheritedProperty NameMap.hashkey = none by decide)
    rw [hnone]
    simp only [Parsed.toOption, Option.bind_eq_bind, Option.bind_some, hg]
    rfl
  have hkey : backedString k.cls.getDefaultString (some (.string name)) = some (utf8 name) := by
    unfold backedString
    simp [Value.isString, Value.toName, hname]
  unfold itemRequest
  simp only [hhashkey, hkey, Option.bind_eq_bind, Option.bind_some]
  rcases hk with rfl | rfl | rfl
  · show UnlockCommand.request hd.globalOptions (some (utf8 name)) none (some (.object fields)) = _
    unfold UnlockCommand.request
    simp only [Option.bind_eq_bind, Option.bind_some, hunlock, Parsed.toOption]
    cases cas <;> rfl
  · show DeleteCommand.request hd.globalOptions (some (utf8 name)) none (some (.object fields)) = _
    unfold DeleteCommand.request
    rw [hunlock]
    cases cas <;> rfl
  · show EndureCommand.request hd.globalOptions (some (utf8 name)) none (some (.object fields)) = _
    unfold EndureCommand.request
    rw [hendure]
    cases cas <;> rfl

end Item

/-! ## The metadata of one answer -/

section Single

variable {c : Cookie} {r : Cookie.Response} {key user : Value} {n : Nat}

/-- The fields of an answer, as `_mergeParams` copies them. -/
theorem merged_meta :
    let fields := Connection.mergeInto [] (.object ((c.responseInfo r).payload.getD []))
    fields.lookup NameMap.cas = r.cas.map Cas.createCas ∧
      ∀ name, name ∉ answerFields → fields.lookup name = none := by
  constructor
  · rw [mergeInto_lookup payload_nodup (by decide), payload_cas]
    exact Option.or_none
  · intro name hname
    have hvalue : name ≠ NameMap.value := by
      rintro rfl
      exact hname (by decide)
    rw [mergeInto_lookup payload_nodup hvalue, payload_other hname]
    rfl

/-- A call of one key with the fields of an answer. -/
theorem single_call {k : Kind} (hk : k = .unlock ∨ k = .delete) (hcas : r.cas = some n)
    (hlt : n < 2 ^ 64) (hname : utf8 key.toName ≠ []) (g : Nat) (h : Heap) :
    lower k [.object (Connection.mergeParams key []
        (.object ((c.responseInfo r).payload.getD []))), .function g] h =
      some { entry := k.cls.entry k.cls.defaults 0
             cmds := [.keyed (some (utf8 key.toName)) none { cas := n }] } := by
  have hby : ByKey k := by
    rcases hk with rfl | rfl <;> exact ⟨nofun, nofun⟩
  have htakes : k.TakesCas := hk.imp_right .inl
  obtain ⟨hmeta, hhash⟩ := merged_meta (c := c) (r := r)
  rw [lower_call hby]
  unfold Connection.mergeParams
  generalize Connection.mergeInto [] (.object ((c.responseInfo r).payload.getD [])) = fields
    at hmeta hhash
  -- the callback stands where the options of the call are looked for, and has none
  obtain ⟨hd, hh, hkeys, hg, hopts⟩ : ∃ hd,
      header k.cls [.object [(key.toName, .object fields)], .function g] = some hd ∧
        hd.keys = KeysInfo.setKeys (.object [(key.toName, .object fields)]) ∧
        hd.globalHashkey.isFound = false ∧ hd.globalOptions = k.cls.defaults := by
    rcases hk with rfl | rfl <;> exact ⟨_, rfl, rfl, rfl, rfl⟩
  have hitems : hd.keys.items = [(some (.string key.toName), some (.object fields))] := by
    have hget : (Value.object [(key.toName, .object fields)]).getProperty key.toName =
        .object fields := getProperty_object List.lookup_cons_self
    rw [hkeys]
    exact congrArg (fun v => [(some (Value.string key.toName), some v)]) hget
  have hitem := item_reused htakes hmeta (fun m hm => by rw [hcas] at hm; cases hm; exact hlt)
    (hhash _ (by decide)) hg hname
  have hcasOf : k.casOf r.cas = some n := by
    rcases hk with rfl | rfl <;> rw [hcas] <;> rfl
  rw [hcasOf] at hitem
  have hreqs : Command.requests k hd =
      some [.keyed (some (utf8 key.toName)) none { cas := n }] := by
    unfold Command.requests
    rw [hitems, List.mapM_cons, hitem]
    rfl
  unfold Command.call
  simp only [hh, Option.bind_eq_bind, Option.bind_some, hreqs, hkeys, hopts]
  rfl

/-- A removal with the fields of an answer asks for no durability. -/
theorem removal_callback : (Mutation.remove.invoke
    [key, .object ((c.responseInfo r).payload.getD []), user]).callback = .user user := by
  obtain ⟨_, hother⟩ := merged_meta (c := c) (r := r)
  have hdurable : Durable (.object (Connection.mergeInto []
      (.object ((c.responseInfo r).payload.getD [])))) = false := by
    unfold Durable Value.getProperty
    simp only [Value.entries, hother NameMap.persistTo (by decide),
      hother NameMap.replicateTo (by decide)]
    rfl
  refine interceptEndure_key.trans (if_neg ?_)
  show ¬ (key.truthy && Durable (.object (Connection.mergeInto []
    (.object ((c.responseInfo r).payload.getD []))))) = true
  rw [hdurable, Bool.and_false]
  exact Bool.false_ne_true

end Single

/-! ## The whole collection -/

section Collection

variable {k k' : Kind} {args args' : List Value} {h : Heap} {hd : Header k.Opts}
  {hd' : Header k'.Opts} {st : PState} {lcb : LcbCall} {rs : List Cookie.Response} {c : Cookie}
  {results : Props} {name : String}

/-- The last answer to a key is the last. -/
theorem lastReply_split {r : Cookie.Response} (hlast : lastReply rs name = some r) :
    Runtime.stringNew r.key = name ∧ ∃ pre post, rs = pre ++ r :: post ∧
      ∀ later ∈ post, Runtime.stringNew later.key ≠ name := by
  obtain ⟨hname, as, bs, hrev, has⟩ := List.find?_eq_some_iff_append.mp hlast
  refine ⟨of_decide_eq_true hname, bs.reverse, as.reverse, ?_, ?_⟩
  · rw [← List.reverse_reverse rs, hrev, List.reverse_append, List.reverse_cons,
      List.append_assoc]
    rfl
  · intro later hl
    simpa using has later (List.mem_reverse.mp hl)

/-- The entry of a name in the results is made of the last answer to it. -/
theorem reused_entry (hres : Results (rs.map fun r => c.responseInfo r) results)
    (hname : name ∈ Assoc.keys results) :
    ∃ r fields, lastReply rs name = some r ∧
      (Value.object results).getProperty name = .object fields ∧
      fields.lookup NameMap.cas = r.cas.map Cas.createCas ∧
      fields.lookup NameMap.hashkey = none := by
  obtain ⟨info, hinfo, hinfoName⟩ := (hres.names name).mp hname
  obtain ⟨r₀, hr₀, rfl⟩ := List.mem_map.mp hinfo
  rw [responseInfo_keyName] at hinfoName
  obtain ⟨r, hlast⟩ : ∃ r, lastReply rs name = some r := by
    refine Option.isSome_iff_exists.mp ?_
    rw [lastReply, List.find?_isSome]
    exact ⟨r₀, List.mem_reverse.mpr hr₀, decide_eq_true hinfoName.symm⟩
  obtain ⟨rfl, pre, post, he, hpost⟩ := lastReply_split hlast
  obtain ⟨fields, hlook, _, hother⟩ := results_last hres he hpost
  refine ⟨r, fields, hlast, getProperty_object hlook, ?_, ?_⟩
  · rw [hother NameMap.cas (by decide), payload_cas]
  · rw [hother NameMap.hashkey (by decide), payload_other (by decide)]

/-- **A results object as the `kv` of the next call.** -/
theorem results_call (hk' : k'.TakesCas) (hres : Results (rs.map fun r => c.responseInfo r) results)
    (hrs : rs ≠ []) (hnamed : ∀ r ∈ rs, utf8 (Runtime.stringNew r.key) = r.key ∧ r.key ≠ [])
    (hlt : ∀ r ∈ rs, ∀ n, r.cas = some n → n < 2 ^ 64)
    (harg : arg args' 0 = .object results) (hh : header k'.cls args' = some hd')
    (hg : hd'.globalHashkey.isFound = false) :
    Command.call k' args' = (k'.handOn rs (Assoc.keys results)).map fun cmds =>
      { entry := k'.cls.entry hd'.globalOptions 0, cmds := cmds } := by
  have hkeys : hd'.keys = KeysInfo.setKeys (.object results) := by
    rw [header_keys hh, harg]
  have hreqs : Command.requests k' hd' = k'.handOn rs (Assoc.keys results) := by
    have hitems : hd'.keys.items = (Assoc.keys results).map fun name =>
        (some (.string name), some ((Value.object results).getProperty name)) := by
      rw [hkeys]
      rfl
    unfold Command.requests Kind.handOn
    rw [hitems, List.mapM_map]
    refine mapM_congr fun name hname => ?_
    obtain ⟨r, fields, hlast, hget, hcas, hhash⟩ := reused_entry hres hname
    obtain ⟨rfl, pre, post, rfl, _⟩ := lastReply_split hlast
    have hmem : r ∈ pre ++ r :: post := List.mem_append_right _ List.mem_cons_self
    have hne : utf8 (Runtime.stringNew r.key) ≠ [] := by
      rw [(hnamed r hmem).1]
      exact (hnamed r hmem).2
    rw [Function.comp_apply, hget, hlast]
    exact item_reused hk' hcas (hlt r hmem) hhash hg hne
  have hpos : hd'.keys.ncmds ≠ 0 := by
    obtain ⟨r, hr⟩ := List.exists_mem_of_ne_nil rs hrs
    have hname : Runtime.stringNew r.key ∈ Assoc.keys results :=
      (hres.names _).mpr ⟨_, List.mem_map.mpr ⟨r, hr, rfl⟩, (responseInfo_keyName r).symm⟩
    rw [hkeys]
    show (Assoc.keys results).length ≠ 0
    intro hz
    rw [List.length_eq_zero_iff.mp hz] at hname
    cases hname
  unfold Command.call
  simp only [hh, Option.bind_eq_bind, Option.bind_some, hreqs, if_neg hpos]
  exact Option.map_eq_bind.symm

end Collection

/-! ## A call that was answered -/

section Landed

variable {c c₀ : Cookie} {f : Flight} {rs : List Cookie.Response} {as : List TrafficAction}
  {t : Traffic}

theorem countDown_mode {info : ResponseInfo} : (c.countDown info).cbType = c.cbType := by
  unfold Cookie.countDown Cookie.invokeSpooledCallback Cookie.invoke Cookie.delete Cookie.touch
  grind

theorem report_mode {info : ResponseInfo} : (c.report info).cbType = c.cbType := by
  unfold Cookie.report Cookie.invokeSingleCallback Cookie.addSpooledInfo Cookie.invoke Cookie.touch
  grind

theorem finish_mode : c.finish.cbType = c.cbType := by
  unfold Cookie.finish Cookie.invokeSpooledCallback Cookie.invoke Cookie.delete Cookie.touch
  grind

/-- No answer changes how a cookie reports. -/
theorem receiveAll_mode : (Cookie.receiveAll rs c).cbType = c.cbType := by
  induction rs generalizing c with
  | nil => rfl
  | cons r rs ih =>
    have hstep : (c.receive r).cbType = c.cbType := by
      show (c.markProgress (c.responseInfo r)).cbType = _
      unfold Cookie.markProgress
      rw [finish_mode, report_mode, countDown_mode]
    exact ih.trans hstep

/-- The answers to a call are to keys it asked for. -/
theorem Over.named (hnew : StringNewInverse) (ho : Over c₀ f)
    (hk : f.kind.cls.cookieKind = .plain) (hperm : (rs.map (·.key)).Perm (keysAsked f.call)) :
    rs ≠ [] ∧ ∀ r ∈ rs, utf8 (Runtime.stringNew r.key) = r.key ∧ r.key ≠ [] := by
  have hkeys := ho.given.keys (plain_byKey hk)
  obtain ⟨_, hpos⟩ := ho.given.counts (.inl hk)
  constructor
  · intro hnil
    have hlen := hperm.length_eq
    rw [hnil, keysAsked, hkeys.length] at hlen
    exact absurd hpos (by rw [← hlen]; exact Nat.lt_irrefl 0)
  · intro r hr
    have hmem : r.key ∈ keysAsked f.call := hperm.mem_iff.mp (List.mem_map_of_mem hr)
    obtain ⟨s, hs, hne⟩ := hkeys.text hmem
    rw [hs, hnew s]
    exact ⟨rfl, hs ▸ hne⟩

/-- **Results can be handed on.** In every reachable state, a key-value call that was answered in
    one piece has called its callback with one results object, which has the keys that were asked
    for. If that is the `kv` of an `unlockMulti`, a `removeMulti` or an `endureMulti` whose other
    arguments are in order, with no hashkey for all, libcouchbase is called with one command for
    each of these keys, with the CAS of the last answer to it. Where that has none, an unlock is
    refused, and the others send 0. -/
theorem results_reused (hnew : StringNewInverse) (h : Traffic.run as = some t) (hf : f ∈ t.landed)
    (hk : f.kind.cls.cookieKind = .plain) (hmode : f.cookie.cbType = .spooled)
    (hlt : ∀ a ∈ f.heard, a.Fits) :
    ∃ rs err results, f.heard = rs.map .keyed ∧
      f.cookie.calls = [{ fn := lastArg f.args, args := [err, .object results] }] ∧
      (Assoc.keys results).Nodup ∧
      (∀ name, name ∈ Assoc.keys results ↔ utf8 name ∈ keysAsked f.call) ∧
      ∀ (k : Kind) (args : List Value) (hd : Header k.Opts) (heap : Heap), k.TakesCas →
        arg args 0 = .object results → header k.cls args = some hd →
        hd.globalHashkey.isFound = false →
        lower k args heap = (k.handOn rs (Assoc.keys results)).map fun cmds =>
          { entry := k.cls.entry hd.globalOptions 0, cmds := cmds } := by
  obtain ⟨⟨c₀, ho⟩, _⟩ := (run_orderly h).landed f hf
  obtain ⟨rs, hheard, hperm, hcookie, hans⟩ := ho.plain hk
  obtain ⟨hne, hnamed⟩ := ho.named hnew hk hperm
  have hfits : ∀ r ∈ rs, ∀ n, r.cas = some n → n < 2 ^ 64 := by
    intro r hr n hn
    exact hlt (.keyed r) (by rw [hheard]; exact List.mem_map_of_mem hr) n hn
  have hmode₀ : c₀.cbType = .spooled := by
    rw [hcookie, receiveAll_mode] at hmode
    exact hmode
  obtain ⟨results, hres, hcalls⟩ := hans.spooled hmode₀
  rw [List.length_map, List.take_length, ← hcookie] at hcalls
  let infos := rs.map fun r => c₀.responseInfo r
  refine ⟨rs, if infos.any failed then Cookie.checkResults else .undefined, results, hheard, ?_,
    hres.nodup, ?_, ?_⟩
  · rw [hcalls, ← ho.given.callback]
    rfl
  · intro name
    rw [hres.names name]
    constructor
    · rintro ⟨info, hinfo, rfl⟩
      obtain ⟨r, hr, rfl⟩ := List.mem_map.mp hinfo
      rw [responseInfo_keyName, (hnamed r hr).1]
      exact hperm.mem_iff.mp (List.mem_map_of_mem hr)
    · intro hmem
      obtain ⟨r, hr, hkey⟩ := List.mem_map.mp (hperm.mem_iff.mpr hmem)
      refine ⟨_, List.mem_map_of_mem hr, ?_⟩
      rw [responseInfo_keyName, hkey, hnew name]
  · intro k args hd heap htakes harg hh hg
    have hby : ByKey k := by
      rcases htakes with rfl | rfl | rfl <;> exact ⟨nofun, nofun⟩
    rw [lower_call hby]
    exact results_call htakes hres hne hnamed hfits harg hh hg

/-- **A single answer can be handed on.** In every reachable state, a key-value call that was
    answered one by one has told its callback of each answer, in order. If an answer has a CAS,
    and what the callback was told is passed as the options of `unlock` or `remove` for the same
    key, libcouchbase is called with one command, for that key and with that CAS; and the removal
    is reported to the application itself. -/
theorem meta_reused (hnew : StringNewInverse) (h : Traffic.run as = some t) (hf : f ∈ t.landed)
    (hk : f.kind.cls.cookieKind = .plain) (hmode : f.cookie.cbType = .single)
    (hlt : ∀ a ∈ f.heard, a.Fits) :
    ∃ rs, f.heard = rs.map .keyed ∧
      List.Forall₂ (fun (r : Cookie.Response) (i : Invocation) => ∃ err fields,
        i = { fn := lastArg f.args, args := [err, .object fields] } ∧
        ∀ n, r.cas = some n → ∀ (key user : Value) (g : Nat) (heap : Heap),
          utf8 key.toName = r.key →
          let unlock := Access.unlock.invoke [key, .object fields, user]
          let remove := Mutation.remove.invoke [key, .object fields, user]
          lower unlock.target (unlock.args ++ [.function g]) heap =
              some { entry := .unlock, cmds := [.keyed (some r.key) none { cas := n }] } ∧
            lower remove.target (remove.args ++ [.function g]) heap =
              some { entry := .remove, cmds := [.keyed (some r.key) none { cas := n }] } ∧
            remove.callback = .user user) rs f.cookie.calls := by
  obtain ⟨⟨c₀, ho⟩, _⟩ := (run_orderly h).landed f hf
  obtain ⟨rs, hheard, hperm, hcookie, hans⟩ := ho.plain hk
  obtain ⟨_, hnamed⟩ := ho.named hnew hk hperm
  have hmode₀ : c₀.cbType = .single := by
    rw [hcookie, receiveAll_mode] at hmode
    exact hmode
  have hcalls := hans.single hmode₀ _ (Nat.le_refl _)
  rw [List.length_map, List.take_length, ← hcookie, ← List.length_map (f := c₀.responseInfo),
    List.take_length, List.map_map] at hcalls
  refine ⟨rs, hheard, ?_⟩
  rw [hcalls, List.forall₂_map_right_iff, List.forall₂_same]
  intro r hr
  refine ⟨errorObject (c₀.responseInfo r).status, (c₀.responseInfo r).payload.getD [], ?_, ?_⟩
  · show singleCall c₀ (c₀.responseInfo r) = _
    rw [singleCall, responseInfo_payload, ho.given.callback]
    rfl
  · intro n hn key user g heap hkey
    have hlt' : n < 2 ^ 64 :=
      hlt (.keyed r) (by rw [hheard]; exact List.mem_map_of_mem hr) n hn
    have hname : utf8 key.toName ≠ [] := by
      rw [hkey]
      exact (hnamed r hr).2
    rw [← hkey]
    exact ⟨single_call (.inl rfl) hn hlt' hname g heap, single_call (.inr rfl) hn hlt' hname g heap,
      removal_callback⟩

end Landed

end Proof

section Example

open scoped SmallRuntime

/-- Two documents are locked, in one call. -/
def lockTwo : List TrafficAction :=
  [.impl (.onConfig true),
    .impl (.makeOperation .lock
      [.array [.string "a", .string "b"], .object [("spooled", .bool true)], .function 1] 0),
    .answer 0 (.keyed { err := 0, key := [98], resp := .get 0 8 [50] }),
    .answer 0 (.keyed { err := 0, key := [97], resp := .get 0 7 [49] })]

/-- `unlockMulti(results)` unlocks both, each with the CAS its lock has. -/
theorem Proof.results_reused_unlock : ∃ t f rs results, Traffic.run lockTwo = some t ∧
    f ∈ t.landed ∧ f.heard = rs.map .keyed ∧ f.heard.length = 2 ∧
    ∀ heap, Proof.lower .unlock
        ((Access.unlockMulti.invoke [.object results, .undefined, .null]).args ++ [.function 2])
        heap =
      (Kind.unlock.handOn rs (Assoc.keys results)).map fun cmds =>
        { entry := .unlock, cmds := cmds } := by
  obtain ⟨t, ht, htest⟩ := (Option.any_eq_true _ _).mp
    (show (Traffic.run lockTwo).any (fun t => t.landed.any fun f =>
      f.kind.cls.cookieKind = .plain && f.cookie.cbType = .spooled &&
        f.heard.all (fun a => a.Fits) && f.heard.length = 2) = true by decide +kernel)
  obtain ⟨f, hf, htest⟩ := List.any_eq_true.mp htest
  simp only [Bool.and_eq_true, decide_eq_true_eq, List.all_eq_true] at htest
  obtain ⟨⟨⟨hk, hmode⟩, hfits⟩, hlen⟩ := htest
  obtain ⟨rs, _, results, hheard, _, _, _, hnext⟩ :=
    Proof.results_reused SmallRuntime.stringNewInverse ht hf hk hmode hfits
  refine ⟨t, f, rs, results, ht, hf, hheard, hlen, fun heap => ?_⟩
  exact hnext .unlock _ _ heap (.inl rfl) rfl rfl rfl

/-- One document is locked. -/
def lockOne : List TrafficAction :=
  [.impl (.onConfig true), .impl (.makeOperation .lock [.string "a", .null, .function 1] 0),
    .answer 0 (.keyed { err := 0, key := [97], resp := .get 0 7 [49] })]

/-- `unlock("a", meta)` with what the lock told its callback. -/
theorem Proof.meta_reused_unlock : ∃ t f i, Traffic.run lockOne = some t ∧ f ∈ t.landed ∧
    i ∈ f.cookie.calls ∧ ∃ fields, i.args.getLast? = some (.object fields) ∧
      ∀ heap, Proof.lower .unlock
          ((Access.unlock.invoke [.string "a", .object fields, .null]).args ++ [.function 2]) heap =
        some { entry := .unlock, cmds := [.keyed (some [97]) none { cas := 7 }] } := by
  obtain ⟨t, ht, htest⟩ := (Option.any_eq_true _ _).mp
    (show (Traffic.run lockOne).any (fun t => t.landed.any fun f =>
      f.kind.cls.cookieKind = .plain && f.cookie.cbType = .single &&
        f.heard.all (fun a => a.Fits) && f.heard ≠ [] && f.heard.all fun a =>
          match a with
          | .keyed r => r.key = [97] && r.cas = some 7
          | _ => false) = true by decide +kernel)
  obtain ⟨f, hf, htest⟩ := List.any_eq_true.mp htest
  simp only [Bool.and_eq_true, decide_eq_true_eq, List.all_eq_true] at htest
  obtain ⟨⟨⟨⟨hk, hmode⟩, hfits⟩, hne⟩, hall⟩ := htest
  obtain ⟨rs, hheard, hcalls⟩ :=
    Proof.meta_reused SmallRuntime.stringNewInverse ht hf hk hmode hfits
  generalize hinvoked : f.cookie.calls = calls at hcalls
  cases hcalls with
  | nil => exact absurd hheard hne
  | @cons r i rs is hi _ =>
    have hra := hall (.keyed r) (by rw [hheard]; exact List.mem_cons_self)
    simp only [Bool.and_eq_true, decide_eq_true_eq] at hra
    obtain ⟨err, fields, rfl, hnext⟩ := hi
    have hbytes : utf8 (Value.string "a").toName = r.key := by
      rw [hra.1]
      decide
    refine ⟨t, f, { fn := Command.lastArg f.args, args := [err, .object fields] }, ht, hf, ?_,
      fields, rfl, fun heap => ?_⟩
    · rw [hinvoked]
      exact List.mem_cons_self
    · rw [← hra.1]
      exact (hnext 7 hra.2 (.string "a") .null 2 heap hbytes).1

end Example

end Couchnode
