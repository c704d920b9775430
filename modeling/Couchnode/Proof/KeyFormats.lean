import Couchnode.Proof.Mutations
import Couchnode.Proof.Notes

/-!
# The format of each key

The formats a get has noted go to its cookie, and are looked up by name when a response comes in.
A key whose format is auto is not in the table; but the lookup also finds what every object
inherits, so a key called `toString` gets a function for a format as soon as there is a table.

`key_formats_iff`: every value is decoded by the format of its own key if and only if no key is
caught by that (`Unshadowed`).
-/

set_option autoImplicit false

namespace Couchnode

namespace Proof

open Command ParamSlot ValueFormat

variable [Runtime]

/-! ## The table of a cookie -/

section Table

variable {glob : GetOptions} {items : List (Option Value × Option Value)}
  {item : Option Value × Option Value}

/-- The format of a key. -/
abbrev specAt (glob : GetOptions) (item : Option Value × Option Value) : Spec :=
  GetCommand.documentedSpec glob (GetCommand.own item.2)

/-- The options of a key are found under its name. -/
theorem items_options {v : Value} (hi : item ∈ (KeysInfo.setKeys v).items) :
    item.2 = if v.isArray || !v.isObject then none else some (v.getProperty (nameOf item)) := by
  cases v with
  | array vs =>
    obtain ⟨x, _, rfl⟩ := List.mem_map.mp hi
    rfl
  | undefined | null | bool | number | string =>
    rw [List.mem_singleton.mp hi]
    rfl
  | function | object | error | buffer | external =>
    obtain ⟨name, _, rfl⟩ := List.mem_map.mp hi
    rfl

/-- So keys of one name have the same options. -/
theorem same_options {v : Value} {other : Option Value × Option Value}
    (hi : item ∈ (KeysInfo.setKeys v).items) (ho : other ∈ (KeysInfo.setKeys v).items)
    (h : nameOf item = nameOf other) : item.2 = other.2 := by
  rw [items_options hi, items_options ho, h]

theorem keptFormats_nil : keptFormats glob items = [] ↔ ∀ item ∈ items, specAt glob item = .auto := by
  unfold keptFormats
  rw [List.filterMap_eq_nil_iff]
  refine forall_congr' fun item => forall_congr' fun _ => ?_
  by_cases ha : specAt glob item = .auto
  · simp [ha]
  · simp [ha]

/-- What a cookie finds in its table. -/
def tableOption (table : Option Props) (name : String) : Option Value :=
  table.bind fun ps => (Value.object ps).getRealNamedProperty name

/-- The table as it is read, under a name that some key has. -/
theorem tableOption_kept (hsame : ∀ other ∈ items, nameOf other = nameOf item → other.2 = item.2)
    (hi : item ∈ items) :
    tableOption (keptTable glob items none) (nameOf item) =
      if specAt glob item ≠ .auto then some (.number (.fin (specAt glob item).toInt))
      else if keptFormats glob items = [] then none
      else inheritedProperty (nameOf item) := by
  have hown (v : Value) (hmem : (nameOf item, v) ∈ keptFormats glob items) :
      specAt glob item ≠ .auto ∧ v = .number (.fin (specAt glob item).toInt) := by
    obtain ⟨other, ho, hne, hname, hv⟩ := mem_keptFormats.mp hmem
    rw [hsame other ho hname.symm] at hne hv
    exact ⟨hne, hv⟩
  by_cases hnil : keptFormats glob items = []
  · have hauto := keptFormats_nil.mp hnil item hi
    unfold keptTable
    simp only [if_pos hnil, hauto, ne_eq, not_true_eq_false, if_false]
    rfl
  · unfold keptTable
    rw [if_neg hnil, if_neg hnil]
    show ((Assoc.writes (keptFormats glob items) []).lookup (nameOf item)).or _ = _
    rw [Assoc.lookup_writes, List.lookup_nil, Option.or_none]
    cases hlook : (keptFormats glob items).reverse.lookup (nameOf item) with
    | some v =>
      obtain ⟨hne, rfl⟩ := hown v (List.mem_reverse.mp (Assoc.mem_of_lookup hlook))
      rw [if_pos hne]
      rfl
    | none =>
      have hauto : specAt glob item = .auto := by
        by_contra hne
        have hmem : (nameOf item, Value.number (.fin (specAt glob item).toInt)) ∈
            (keptFormats glob items).reverse :=
          List.mem_reverse.mpr (mem_keptFormats.mpr ⟨item, hi, hne, rfl, rfl⟩)
        have hfound := List.lookup_eq_none_iff.mp hlook _ hmem
        simp at hfound
      rw [if_neg (not_not.mpr hauto)]
      rfl

end Table

/-! ## The flags a value is decoded by -/

section Flags

variable {glob : GetOptions} {items : List (Option Value × Option Value)}
  {item : Option Value × Option Value} {flags : Nat}

/-- The flags a response is decoded by, from the option found for it. -/
def chosenFlags (option : Option Value) (flags : Nat) : Nat :=
  match option with
  | some v => v.uint32Value
  | none => flags

/-- A format that is kept reads as its own flags. -/
theorem kept_flags {spec : Spec} (hvalid : spec ≠ .invalid) :
    (Value.number (.fin spec.toInt)).uint32Value = spec.flags := by
  cases spec with
  | invalid => exact absurd rfl hvalid
  | json | utf16 | raw | utf8 | auto => rfl

/-- No key has to do without an option under a name that every object inherits, while another
    key has one. -/
def Unshadowed (glob : GetOptions) (items : List (Option Value × Option Value)) : Prop :=
  ∀ item ∈ items, inheritedProperty (nameOf item) ≠ none → specAt glob item = .auto →
    ∀ other ∈ items, specAt glob other = .auto

/-- **The flags of a key are those of its format**, where its name is not taken. -/
theorem chosenFlags_documented
    (hsame : ∀ other ∈ items, nameOf other = nameOf item → other.2 = item.2) (hi : item ∈ items)
    (hvalid : specAt glob item ≠ .invalid) (hun : Unshadowed glob items) :
    chosenFlags (tableOption (keptTable glob items none) (nameOf item)) flags =
      GetCommand.decodeFlags glob (GetCommand.own item.2) flags := by
  rw [tableOption_kept hsame hi]
  unfold GetCommand.decodeFlags
  by_cases ha : specAt glob item = .auto
  · have ha' : GetCommand.documentedSpec glob (GetCommand.own item.2) = .auto := ha
    rw [if_neg (not_not.mpr ha)]
    simp only [if_pos ha']
    by_cases hnil : keptFormats glob items = []
    · rw [if_pos hnil]
      rfl
    · rw [if_neg hnil]
      cases hname : inheritedProperty (nameOf item) with
      | none => rfl
      | some v =>
        -- then no key has a format, and there is no table
        have hall := hun item hi (by rw [hname]; exact nofun) ha
        exact absurd (keptFormats_nil.mpr hall) hnil
  · have ha' : GetCommand.documentedSpec glob (GetCommand.own item.2) ≠ .auto := ha
    rw [if_pos ha]
    simp only [if_neg ha']
    exact kept_flags hvalid

/-- A key that is caught is decoded by a function. -/
theorem chosenFlags_shadowed
    (hsame : ∀ other ∈ items, nameOf other = nameOf item → other.2 = item.2) (hi : item ∈ items)
    (hauto : specAt glob item = .auto) (hname : inheritedProperty (nameOf item) ≠ none)
    (hkept : keptFormats glob items ≠ []) :
    chosenFlags (tableOption (keptTable glob items none) (nameOf item)) flags =
      (Value.function 0).uint32Value := by
  have hfun : inheritedProperty (nameOf item) = some (.function 0) := by
    unfold inheritedProperty at hname ⊢
    split
    · rfl
    · next hnot => exact absurd (if_neg hnot) hname
  rw [tableOption_kept hsame hi, if_neg (not_not.mpr hauto), if_neg hkept, hfun]
  rfl

end Flags

/-! ## What a get is told -/

section Answer

variable {args : List Value} {k : Kind} {h : Heap} {hd : Header k.Opts} {st : PState}
  {lcb : LcbCall} {rs : List Cookie.Response} {r : Cookie.Response} {c : Cookie}

/-- A document that was found. -/
def Got (r : Cookie.Response) : Prop :=
  r.err = LCB_SUCCESS ∧ ∃ flags cas bytes, r.resp = .get flags cas bytes

/-- The value in the fields of a response is decoded by the format of its key. -/
def Decoded (args : List Value) (r : Cookie.Response) (fields : Props) : Prop :=
  ∀ item ∈ callItems args, r.key = utf8 (nameOf item) →
    ∀ flags cas bytes, r.resp = .get flags cas bytes →
      fields.lookup NameMap.value = some (decode bytes
        (GetCommand.decodeFlags (GetCommand.globals args) (GetCommand.own item.2) flags))

/-- **The application gets every value in the format of its key**: call by call, or all in one
    results object, which has the last response to a key that was asked for more than once. -/
structure FormatsKept (args : List Value) (c : Cookie) (rs : List Cookie.Response) : Prop where
  single : c.cbType = .single →
    List.Forall₂ (fun r (i : Invocation) =>
      ∃ fields, i.args = [.undefined, .object fields] ∧ Decoded args r fields)
      rs (Cookie.receiveAll rs c).calls
  spooled : c.cbType = .spooled →
    ∃ results, (Cookie.receiveAll rs c).calls.map (·.args) = [[.undefined, .object results]] ∧
      ∀ pre r post, rs = pre ++ r :: post → (∀ later ∈ post, later.key ≠ r.key) →
        ∃ fields, results.lookup (Runtime.stringNew r.key) = some (.object fields) ∧
          Decoded args r fields

/-- The fields the cookie makes of a document. -/
theorem responseInfo_got (hr : Got r) :
    (c.responseInfo r).status = LCB_SUCCESS ∧
      ∃ flags cas bytes, r.resp = .get flags cas bytes ∧ ∃ fields,
        (c.responseInfo r).payload = some fields ∧ fields.lookup NameMap.value =
          some (decode bytes (chosenFlags
            (tableOption c.keyOptions (Runtime.stringNew r.key)) flags)) := by
  obtain ⟨err, key, resp⟩ := r
  obtain ⟨herr, flags, cas, bytes, hresp⟩ := hr
  simp only at herr hresp
  subst herr
  subst hresp
  refine ⟨rfl, flags, cas, bytes, rfl, _, rfl, ?_⟩
  have hoption : c.getKeyOption (.string (Runtime.stringNew key)) =
      tableOption c.keyOptions (Runtime.stringNew key) := by
    unfold Cookie.getKeyOption tableOption
    cases c.keyOptions <;> rfl
  rw [hoption]
  rfl

omit [Runtime] in
theorem exists_last {α : Type} {p : α → Prop} {xs : List α} (h : ∃ x ∈ xs, p x) :
    ∃ pre x post, xs = pre ++ x :: post ∧ p x ∧ ∀ y ∈ post, ¬ p y := by
  induction xs with
  | nil =>
    obtain ⟨_, hmem, _⟩ := h
    cases hmem
  | cons x xs ih =>
    by_cases hxs : ∃ y ∈ xs, p y
    · obtain ⟨pre, y, post, rfl, hy, hpost⟩ := ih hxs
      exact ⟨x :: pre, y, post, rfl, hy, hpost⟩
    · refine ⟨[], x, xs, rfl, ?_, fun y hy hp => hxs ⟨y, hy, hp⟩⟩
      obtain ⟨y, hy, hp⟩ := h
      rcases List.mem_cons.mp hy with rfl | hy
      · exact hp
      · exact absurd ⟨y, hy, hp⟩ hxs

/-- What is decoded is a matter of the value alone. -/
theorem Decoded.congr {fields fields' : Props} (hd : Decoded args r fields)
    (h : fields'.lookup NameMap.value = fields.lookup NameMap.value) : Decoded args r fields' := by
  intro item hi hkey flags cas bytes hresp
  rw [h]
  exact hd item hi hkey flags cas bytes hresp

/-- The calls of a cookie, when all that was asked for was found. -/
theorem got_calls (hgot : ∀ r ∈ rs, Got r)
    (hans : Answered c (rs.map fun r => c.responseInfo r) fun m => Cookie.receiveAll (rs.take m) c) :
    (c.cbType = .single → (Cookie.receiveAll rs c).calls =
        (rs.map fun r => c.responseInfo r).map (singleCall c)) ∧
      (c.cbType = .spooled → ∃ results, Results (rs.map fun r => c.responseInfo r) results ∧
        (Cookie.receiveAll rs c).calls.map (·.args) = [[.undefined, .object results]]) := by
  have hnone : (rs.map fun r => c.responseInfo r).any failed = false := by
    rw [List.any_eq_false]
    intro info hinfo
    obtain ⟨r, hr, rfl⟩ := List.mem_map.mp hinfo
    simp [failed, (responseInfo_got (c := c) (hgot r hr)).1]
  constructor
  · exact (final_calls hans).1
  · intro hmode
    obtain ⟨results, hres, hcalls⟩ := hans.spooled hmode
    rw [hnone, List.take_of_length_le (by simp)] at hcalls
    exact ⟨results, hres, by rw [hcalls]; rfl⟩

/-- The call for one document. -/
theorem got_single (hr : Got r) :
    (singleCall c (c.responseInfo r)).args =
      [.undefined, .object ((c.responseInfo r).payload.getD [])] := by
  obtain ⟨hok, _, _, _, _, fields, hpayload, _⟩ := responseInfo_got (c := c) hr
  unfold singleCall
  rw [hok, hpayload]
  rfl

/-- **What a get is told is what its cookie makes of the responses.** -/
theorem formatsKept_of_decoded (hnew : ∀ r ∈ rs, r.key = utf8 (Runtime.stringNew r.key))
    (hgot : ∀ r ∈ rs, Got r)
    (hans : Answered c (rs.map fun r => c.responseInfo r) fun m => Cookie.receiveAll (rs.take m) c)
    (hdec : ∀ r ∈ rs, Decoded args r ((c.responseInfo r).payload.getD [])) :
    FormatsKept args c rs := by
  obtain ⟨hsingle, hspooled⟩ := got_calls hgot hans
  constructor
  · intro hmode
    rw [hsingle hmode, List.map_map, List.forall₂_map_right_iff, List.forall₂_same]
    intro r hr
    exact ⟨_, got_single (hgot r hr), hdec r hr⟩
  · intro hmode
    obtain ⟨results, hres, hcalls⟩ := hspooled hmode
    refine ⟨results, hcalls, fun pre r post he hlast => ?_⟩
    have hr : r ∈ rs := by simp [he]
    obtain ⟨fields, hlook, _, hother⟩ := results_last hres he fun later hl hname => by
      apply hlast later hl
      rw [hnew later (by simp [he, hl]), hnew r hr, hname]
    exact ⟨fields, hlook, (hdec r hr).congr (hother NameMap.value (by decide))⟩

/-- Of the responses to one key, one at least shows how it was decoded. -/
theorem decoded_of_formatsKept (hnew : ∀ r ∈ rs, r.key = utf8 (Runtime.stringNew r.key))
    (hgot : ∀ r ∈ rs, Got r)
    (hans : Answered c (rs.map fun r => c.responseInfo r) fun m => Cookie.receiveAll (rs.take m) c)
    (hkept : FormatsKept args c rs) {key : List UInt8} (hkey : ∃ r ∈ rs, r.key = key) :
    ∃ r ∈ rs, r.key = key ∧ Decoded args r ((c.responseInfo r).payload.getD []) := by
  obtain ⟨hsingle, hspooled⟩ := got_calls hgot hans
  obtain ⟨pre, r, post, he, hr, hlast⟩ := exists_last hkey
  have hmem : r ∈ rs := by simp [he]
  refine ⟨r, hmem, hr, ?_⟩
  cases hmode : c.cbType with
  | single =>
    have hall := hkept.single hmode
    rw [hsingle hmode, List.map_map, List.forall₂_map_right_iff, List.forall₂_same] at hall
    obtain ⟨fields, hargs, hdec⟩ := hall r hmem
    have hsame := (got_single (c := c) (hgot r hmem)).symm.trans hargs
    simp only [List.cons.injEq, Value.object.injEq, and_true, true_and] at hsame
    rw [hsame]
    exact hdec
  | spooled =>
    obtain ⟨results, hres, hcalls⟩ := hspooled hmode
    obtain ⟨results', hcalls', hall⟩ := hkept.spooled hmode
    have hsame := hcalls.symm.trans hcalls'
    simp only [List.cons.injEq, Value.object.injEq, and_true, true_and] at hsame
    subst hsame
    have hlast' : ∀ later ∈ post, later.key ≠ r.key := by
      intro later hl
      rw [hr]
      exact hlast later hl
    obtain ⟨fields, hlook, hdec⟩ := hall pre r post he hlast'
    obtain ⟨fields', hlook', _, hother⟩ := results_last hres he fun later hl hname => by
      apply hlast' later hl
      rw [hnew later (by simp [he, hl]), hnew r hmem, hname]
    rw [hlook] at hlook'
    cases hlook'
    exact hdec.congr (hother NameMap.value (by decide)).symm

end Answer

/-! ## The requests that get -/

section Request

variable {args : List Value} {k : Kind} {h : Heap} {hd : Header k.Opts} {st : PState}
  {lcb : LcbCall} {rs : List Cookie.Response}

/-- A key is asked for under its name. -/
theorem backedString_text {v : Option Value} {bs : Bytes} (h : backedString none v = some bs) :
    bs = utf8 (v.getD .undefined).toName ∧ bs ≠ [] := by
  cases v with
  | none => cases h
  | some v =>
    unfold backedString at h
    simp only at h
    split at h
    · next htext =>
      cases h
      simp only [Bool.and_eq_true, decide_eq_true_eq] at htext
      exact ⟨rfl, htext.2⟩
    · cases h

theorem get_item_key (hk : k = .get ∨ k = .lock) {item : Option Value × Option Value}
    {req : LcbReq} (hreq : itemRequest k.cls k.request hd item = some req) :
    req.key = some (utf8 (nameOf item)) ∧ utf8 (nameOf item) ≠ [] := by
  unfold itemRequest at hreq
  simp only [Option.bind_eq_bind, Option.bind_eq_some_iff] at hreq
  obtain ⟨hashkey, _, key, hkey, hreq⟩ := hreq
  have htext : key = utf8 (nameOf item) ∧ key ≠ [] := by
    rcases hk with rfl | rfl <;> exact backedString_text hkey
  have hreqkey : req.key = some key := by
    rcases hk with rfl | rfl
    · obtain ⟨_, _, rfl⟩ := Option.map_eq_some_iff.mp hreq
      rfl
    · obtain ⟨_, _, rfl⟩ := Option.map_eq_some_iff.mp hreq
      rfl
  obtain ⟨rfl, hne⟩ := htext
  exact ⟨hreqkey, hne⟩

/-- **What libcouchbase is asked for**: every key, in order. -/
theorem get_commands (hk : k = .get ∨ k = .lock)
    (hacc : accept k.cls args (Command.start h) = .done hd st)
    (hexec : (withCookie k hd st).execute k.cls st.heap = some lcb) :
    lcb.cmds.map (·.key) = (callItems args).map (fun item => some (utf8 (nameOf item))) ∧
      ∀ item ∈ callItems args, utf8 (nameOf item) ≠ [] := by
  have hcall : Command.call k args = some lcb := (execute_call (byKey_gets hk) hacc).symm.trans hexec
  obtain ⟨hd', _, hreqs⟩ := call_requests hcall
  exact keys_of_forall₂ (hreqs.imp fun _ _ hreq => get_item_key hk hreq)

/-- The cookie of a get has the table of its formats. -/
theorem get_cookie (hk : k = .get ∨ k = .lock)
    (hacc : accept k.cls args (Command.start h) = .done hd st)
    (hvalid : ∀ item ∈ callItems args, specOf k args item ≠ .invalid) :
    ((ofState hd st).createCookie k.cls).keyOptions =
      keptTable (GetCommand.globals args) (callItems args) none := by
  have hplain (c : Command k.Opts) (cookie : Cookie) :
      (c.initCookie cookie).keyOptions = c.cookieKeyOptions := by
    unfold Command.initCookie Cookie.setCallback
    dsimp only
    split <;> rfl
  rcases hk with rfl | rfl
  · exact (hplain _ _).trans (getsBy_get.notes hd st hacc hvalid).2
  · exact (hplain _ _).trans (getsBy_lock.notes hd st hacc hvalid).2

/-- The replies to a get are to its keys, and its cookie reports them all. -/
theorem get_answered (hk : k = .get ∨ k = .lock)
    (hacc : accept k.cls args (Command.start h) = .done hd st)
    (hexec : (withCookie k hd st).execute k.cls st.heap = some lcb) (hrs : RepliesTo lcb rs) :
    let c := (ofState hd st).createCookie k.cls
    (∀ r ∈ rs, ∃ item ∈ callItems args, r.key = utf8 (nameOf item)) ∧
      Answered c (rs.map fun r => c.responseInfo r) fun m => Cookie.receiveAll (rs.take m) c := by
  have hplain : k.cls.cookieKind = .plain := by rcases hk with rfl | rfl <;> rfl
  obtain ⟨hcmds, hne⟩ := get_commands hk hacc hexec
  exact (asked_answered hplain hacc (items_length _) hcmds hne hrs).2

/-- Every key answered with an empty document. -/
def emptyDocuments (lcb : LcbCall) (flags : Nat) : List Cookie.Response :=
  lcb.cmds.map fun req =>
    { err := LCB_SUCCESS, key := req.key.getD [], resp := .get flags 0 [] }

omit [Runtime] in
theorem emptyDocuments_got {flags : Nat} : ∀ r ∈ emptyDocuments lcb flags,
    Got r ∧ r.resp = .get flags 0 [] := by
  intro r hr
  obtain ⟨req, _, rfl⟩ := List.mem_map.mp hr
  exact ⟨⟨rfl, flags, 0, [], rfl⟩, rfl⟩

omit [Runtime] in
theorem emptyDocuments_replies {α : Type} {items : List α} {key : α → Bytes} {flags : Nat}
    (hcmds : lcb.cmds.map (·.key) = items.map fun item => some (key item)) :
    RepliesTo lcb (emptyDocuments lcb flags) := by
  unfold RepliesTo emptyDocuments
  rw [List.map_map]
  refine .of_eq (List.map_congr_left fun req hreq => ?_)
  have hmem : req.key ∈ items.map fun item => some (key item) := by
    rw [← hcmds]
    exact List.mem_map_of_mem hreq
  obtain ⟨item, _, he⟩ := List.mem_map.mp hmem
  show some (req.key.getD []) = req.key
  rw [← he]
  rfl

/-- **A key that is caught is not decoded as it should be**, whatever number a function is: an
    empty document would have to be both a string and a buffer. -/
theorem shadowed_not_kept (hnew : StringNewInverse) (hk : k = .get ∨ k = .lock)
    (hacc : accept k.cls args (Command.start h) = .done hd st)
    (hexec : (withCookie k hd st).execute k.cls st.heap = some lcb)
    {item : Option Value × Option Value} (hi : item ∈ callItems args)
    (hauto : specAt (GetCommand.globals args) item = .auto)
    (hfun : ∀ flags, chosenFlags (tableOption ((ofState hd st).createCookie k.cls).keyOptions
      (nameOf item)) flags = (Value.function 0).uint32Value) :
    ¬ ∀ rs, RepliesTo lcb rs → (∀ r ∈ rs, Got r) →
      FormatsKept args ((ofState hd st).createCookie k.cls) rs := by
  intro hkept
  have hstring (s : String) : Runtime.stringNew (utf8 s) = s := hnew s
  obtain ⟨hcmds, _⟩ := get_commands hk hacc hexec
  have hread (flags : Nat) : decode [] (Value.function 0).uint32Value = decode [] flags := by
    have hrs : RepliesTo lcb (emptyDocuments lcb flags) := emptyDocuments_replies hcmds
    have hgot : ∀ r ∈ emptyDocuments lcb flags, Got r := fun r hr => (emptyDocuments_got r hr).1
    obtain ⟨hkey, hans⟩ := get_answered hk hacc hexec hrs
    have hnamed : ∀ r ∈ emptyDocuments lcb flags, r.key = utf8 (Runtime.stringNew r.key) := by
      intro r hr
      obtain ⟨other, _, he⟩ := hkey r hr
      rw [he, hstring]
    have hasked : ∃ r ∈ emptyDocuments lcb flags, r.key = utf8 (nameOf item) := by
      have hmem : some (utf8 (nameOf item)) ∈ lcb.cmds.map (·.key) := by
        rw [hcmds]
        exact List.mem_map.mpr ⟨item, hi, rfl⟩
      obtain ⟨r, hr, he⟩ := List.mem_map.mp (hrs.mem_iff.mpr hmem)
      exact ⟨r, hr, Option.some.inj he⟩
    obtain ⟨r, hr, he, hdec⟩ := decoded_of_formatsKept hnamed hgot hans (hkept _ hrs hgot) hasked
    have hresp := (emptyDocuments_got r hr).2
    have hdec := hdec item hi he _ _ _ hresp
    obtain ⟨_, flags', cas', bytes', hresp', fields, hpayload, hvalue⟩ :=
      responseInfo_got (c := (ofState hd st).createCookie k.cls) (hgot r hr)
    rw [hresp] at hresp'
    cases hresp'
    rw [hpayload] at hdec
    have hdec := hvalue.symm.trans hdec
    rw [he, hstring, hfun] at hdec
    have hown : GetCommand.decodeFlags (GetCommand.globals args) (GetCommand.own item.2) flags =
        flags := if_pos hauto
    rw [hown] at hdec
    exact Option.some.inj hdec
  have hboth := (hread Spec.utf8.flags).symm.trans (hread Spec.raw.flags)
  cases hboth

/-- **When every value is decoded by the format of its own key**: for all answers, if no key is
    caught by what objects inherit. -/
theorem key_formats_iff (hnew : StringNewInverse) (hk : k = .get ∨ k = .lock)
    (hacc : accept k.cls args (Command.start h) = .done hd st)
    (hexec : (withCookie k hd st).execute k.cls st.heap = some lcb)
    (hvalid : ∀ item ∈ callItems args, specOf k args item ≠ .invalid) :
    (∀ rs, RepliesTo lcb rs → (∀ r ∈ rs, Got r) →
        FormatsKept args ((ofState hd st).createCookie k.cls) rs) ↔
      Unshadowed (GetCommand.globals args) (callItems args) := by
  have htable := get_cookie hk hacc hvalid
  have hsame (item : Option Value × Option Value) (hi : item ∈ callItems args) :
      ∀ other ∈ callItems args, nameOf other = nameOf item → other.2 = item.2 :=
    fun other ho hname => same_options ho hi hname
  have hspec (item : Option Value × Option Value) (hi : item ∈ callItems args) :
      specAt (GetCommand.globals args) item ≠ .invalid := by
    rcases hk with rfl | rfl <;> exact hvalid item hi
  have hstring (s : String) : Runtime.stringNew (utf8 s) = s := hnew s
  constructor
  · intro hkept item hi hname hauto other ho
    by_contra hother
    have hnil : keptFormats (GetCommand.globals args) (callItems args) ≠ [] :=
      fun hnil => hother (keptFormats_nil.mp hnil other ho)
    refine shadowed_not_kept hnew hk hacc hexec hi hauto (fun flags => ?_) hkept
    rw [htable]
    exact chosenFlags_shadowed (hsame item hi) hi hauto hname hnil
  · intro hun rs hrs hgot
    obtain ⟨hkey, hans⟩ := get_answered hk hacc hexec hrs
    refine formatsKept_of_decoded (fun r hr => ?_) hgot hans fun r hr => ?_
    · obtain ⟨item, _, he⟩ := hkey r hr
      rw [he, hstring]
    · intro item hi he flags cas bytes hresp
      obtain ⟨_, flags', cas', bytes', hresp', fields, hpayload, hvalue⟩ :=
        responseInfo_got (c := (ofState hd st).createCookie k.cls) (hgot r hr)
      rw [hresp] at hresp'
      cases hresp'
      rw [hpayload]
      show fields.lookup _ = _
      rw [hvalue, htable, he, hstring,
        chosenFlags_documented (hsame item hi) hi (hspec item hi) hun]

end Request

end Proof

section Example

open scoped SmallRuntime

def getRaw : List Value :=
  [.object [("a", .object [("format", .string "raw")]), ("b", .object [])], .object [], .function 1]

/-- A raw key beside one without a format. -/
theorem Proof.key_formats_iff_raw : ∃ hd st lcb,
    Command.accept Kind.get.cls getRaw (Command.start []) = .done hd st ∧
      (Command.withCookie .get hd st).execute Kind.get.cls st.heap = some lcb ∧
      ∀ rs, Proof.RepliesTo lcb rs → (∀ r ∈ rs, Proof.Got r) →
        Proof.FormatsKept getRaw ((Command.ofState hd st).createCookie Kind.get.cls) rs := by
  obtain ⟨hd, st, hacc, htest⟩ := Outcome.exists_of_check
    (Command.accept Kind.get.cls getRaw (Command.start []))
    (fun hd st => ((Command.withCookie .get hd st).execute Kind.get.cls st.heap).isSome)
    (by decide +kernel)
  obtain ⟨lcb, hexec⟩ := Option.isSome_iff_exists.mp htest
  have hitems : Proof.callItems getRaw =
      [(some (.string "a"), some (.object [("format", .string "raw")])),
        (some (.string "b"), some (.object []))] := rfl
  refine ⟨hd, st, lcb, hacc, hexec, ?_⟩
  apply (Proof.key_formats_iff SmallRuntime.stringNewInverse (.inl rfl) hacc hexec ?_).mpr
  · intro item hi hname
    rw [hitems] at hi
    rcases List.mem_cons.mp hi with rfl | hi
    · exact absurd rfl hname
    · rw [List.mem_singleton.mp hi] at hname
      exact absurd rfl hname
  · intro item hi
    rw [hitems] at hi
    rcases List.mem_cons.mp hi with rfl | hi
    · decide +kernel
    · rw [List.mem_singleton.mp hi]
      decide +kernel

def getToString : List Value :=
  [.object [("toString", .object []), ("a", .object [("format", .string "raw")])], .object [],
    .function 1]

/-- Two documents that are the string `x`. -/
def stringX : List Cookie.Response :=
  [{ err := LCB_SUCCESS, key := utf8 "toString", resp := .get 4 7 (utf8 "x") },
   { err := LCB_SUCCESS, key := utf8 "a", resp := .get 4 7 (utf8 "x") }]

/-- A key called `toString` beside a raw one: its string is read as JSON, and comes back as a
    `Buffer`. -/
theorem Proof.key_formats_toString : ∃ hd st lcb,
    Command.accept Kind.get.cls getToString (Command.start []) = .done hd st ∧
      (Command.withCookie .get hd st).execute Kind.get.cls st.heap = some lcb ∧
      Proof.RepliesTo lcb stringX ∧ (∀ r ∈ stringX, Proof.Got r) ∧
      ¬ Proof.FormatsKept getToString ((Command.ofState hd st).createCookie Kind.get.cls)
        stringX := by
  obtain ⟨hd, st, hacc, htest⟩ := Outcome.exists_of_check
    (Command.accept Kind.get.cls getToString (Command.start []))
    (fun hd st =>
      let c := (Command.ofState hd st).createCookie Kind.get.cls
      ((Command.withCookie .get hd st).execute Kind.get.cls st.heap).any (fun lcb =>
        lcb.cmds.map (·.key) = [some (utf8 "toString"), some (utf8 "a")]) &&
      decide (c.cbType = .single) &&
      (Cookie.receiveAll stringX c).calls.head?.any fun i =>
        ((Command.arg i.args 1).getProperty NameMap.value).isBuffer)
    (by decide +kernel)
  simp only [Bool.and_eq_true, decide_eq_true_eq] at htest
  obtain ⟨⟨hexec, hmode⟩, hbuffer⟩ := htest
  obtain ⟨lcb, hexec, hcmds⟩ := (Option.any_eq_true _ _).mp hexec
  have hcmds := of_decide_eq_true hcmds
  refine ⟨hd, st, lcb, hacc, hexec, ?_, ?_, fun hkept => ?_⟩
  · show (stringX.map fun r => some r.key).Perm (lcb.cmds.map (·.key))
    rw [hcmds]
    exact .refl _
  · intro r hr
    rcases List.mem_cons.mp hr with rfl | hr
    · exact ⟨rfl, 4, 7, utf8 "x", rfl⟩
    · rw [List.mem_singleton.mp hr]
      exact ⟨rfl, 4, 7, utf8 "x", rfl⟩
  · obtain ⟨i, rest, ⟨fields, hargs, hdec⟩, _, hcalls⟩ :=
      List.forall₂_cons_left_iff.mp (hkept.single hmode)
    rw [hcalls] at hbuffer
    have hbuffer : ((Command.arg i.args 1).getProperty NameMap.value).isBuffer = true := hbuffer
    have hvalue := hdec (some (.string "toString"), some (.object [])) List.mem_cons_self rfl
      4 7 (utf8 "x") rfl
    have hflags : GetCommand.decodeFlags (GetCommand.globals getToString)
        (GetCommand.own (some (.object []))) 4 = 4 := by decide +kernel
    rw [hflags] at hvalue
    rw [hargs] at hbuffer
    have hbuffer : ((fields.lookup NameMap.value).getD .undefined).isBuffer = true := hbuffer
    rw [hvalue] at hbuffer
    cases hbuffer

end Example

end Couchnode
