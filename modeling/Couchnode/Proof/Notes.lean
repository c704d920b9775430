import Couchnode.Proof.Precedence

/-!
# What is noted of formats

Besides memory a request carries two things the validators write: its error, and the formats of
its keys (`notes`). Most steps leave both alone (`Quiet`). The get handler is the exception: it
notes the format of each key that has one, `noteFormat`, and goes on whatever `toSpec` said of it,
where the store handler stops at a format that is none.

`formats_judged_iff` is what comes of the difference: a store judges its formats as `toSpec`
does, a get only when there is none to object to.
-/

set_option autoImplicit false

namespace Couchnode

namespace Proof

open Prog Command ParamSlot ValueFormat

variable [Runtime] {O : Type}

/-! ## Steps that leave the notes alone -/

section Quiet

variable {α β : Type} {x : Prog PState α} {s s' : PState}

omit [Runtime] in
/-- The error of a request and the formats of its keys. -/
def notes (s : PState) : CBExc × Option Props := (s.err, s.cookieKeyOptions)

/-- The step leaves the notes alone if it finishes. -/
abbrev Quiet (x : Prog PState α) : Prop := Leaves notes x

theorem quiet_fail (c : Complaint) : Quiet (PState.fail c : Prog PState α) := by
  intro s a s' h
  exact (fail_done h).elim

theorem quiet_liftParsed (p : Parsed α) : Quiet (PState.liftParsed p) := by
  intro s a s' h
  obtain ⟨_, rfl⟩ := liftParsed_done h
  rfl

omit [Runtime] in
theorem notes_noMemory : NoMemory notes := fun _ _ _ _ => rfl

theorem quiet_handleBadString (dflt : Option String) (msg : String) :
    Quiet (handleBadString dflt msg) := by
  cases dflt with
  | none => exact quiet_fail _
  | some d => exact .ret _

theorem quiet_getBufBackedString (dflt : Option String) (v : Option Value) (addNul : Bool) :
    Quiet (getBufBackedString dflt v addNul) := by
  rcases getBufBackedString_cases dflt v addNul with ⟨_, msg, hbad⟩ | ⟨t, _, _, hcopy⟩
  · rw [hbad]
    exact quiet_handleBadString dflt msg
  · rw [hcopy]
    apply Leaves.bind (notes_noMemory.getBuffer _)
    intro k
    by_cases hk : k = .null
    · -- the error is noted, but nothing can be written to a buffer that is not there
      subst hk
      intro s a s' h
      obtain ⟨_, s₁, _, h⟩ := bind_eq_done.mp h
      obtain ⟨_, s₂, hw, _⟩ := bind_eq_done.mp h
      cases hw
    · apply Leaves.bind
      · rw [Prog.when, if_neg hk]
        exact .ret ()
      intro _
      apply Leaves.bind (notes_noMemory.writeBytes k _)
      intro _
      apply Leaves.bind
      · exact .ite (fun _ => notes_noMemory.writeBytes _ _) fun _ => .ret ()
      · exact fun _ => .ret _

/-- Bytes copied into a buffer of the command. -/
theorem quiet_stored (n : Nat) (c : Complaint) (bs : List UInt8) (result : CharPtr → Encoded) :
    Quiet (do
      let k ← PState.getBuffer n
      if k = .null then PState.fail c
      else
        PState.writeBytes k bs
        pure (result k)) := by
  apply Leaves.bind (notes_noMemory.getBuffer _)
  intro k
  apply Leaves.ite
  · intro _
    exact quiet_fail _
  · intro _
    exact .bind (notes_noMemory.writeBytes k _) fun _ => .ret _

theorem quiet_encodeUtf8 (v : Value) : Quiet (encodeUtf8 v) := by
  cases v with
  | string t =>
    apply Leaves.ite
    · intro _
      exact .ret _
    intro _
    exact quiet_stored _ _ _ _
  | _ => exact quiet_fail _

theorem quiet_encodeAs (v : Value) (spec : Spec) : Quiet (encodeAs v spec) := by
  cases spec with
  | utf8 => exact quiet_encodeUtf8 v
  | raw =>
    cases v with
    | buffer bs => exact quiet_stored _ _ _ _
    | _ => exact .bind (quiet_encodeUtf8 _) fun _ => .ret _
  | json =>
    unfold encodeAs
    simp only
    cases Runtime.jsonStringify v with
    | error ex => exact quiet_fail _
    | ok ret => exact .bind (quiet_encodeUtf8 ret) fun _ => .ret _
  | invalid | utf16 | auto => exact quiet_fail _

theorem quiet_encode (v : Option Value) (spec : Spec) : Quiet (encode v spec) := by
  apply Leaves.ite
  · intro _
    exact quiet_fail _
  intro _
  cases v with
  | none => exact .ite (fun _ => quiet_fail _) fun _ => .fault
  | some v => exact quiet_encodeAs v _

theorem quiet_processHashkey (cls : CommandClass O) (hd : Header O) (options : Option Value) :
    Quiet (processHashkey cls hd options) := by
  apply Leaves.bind (quiet_liftParsed _)
  intro slot
  apply Leaves.ite
  · intro _
    exact quiet_getBufBackedString _ _ _
  intro _
  exact .ite (fun _ => quiet_getBufBackedString _ _ _) fun _ => .ret _

theorem quiet_initCommandList (n : Nat) : Quiet (initCommandList n) := by
  intro s a s' h
  unfold initCommandList at h
  split at h
  · cases h
    rfl
  · exact (fail_done h).elim

/-- **`initialize` notes nothing**: a callback it objects to is one it does not go on without. -/
theorem quiet_initializeCommand (cls : CommandClass O) (args : List Value) :
    Quiet (initializeCommand cls args) := by
  apply Leaves.bind (quiet_initCommandList _)
  intro _
  apply Leaves.bind
  · unfold parseParams
    cases cls.params with
    | none => exact .ret _
    | some specs => exact quiet_liftParsed _
  intro opts
  refine Leaves.bind ?_ fun _ => .ret _
  intro s r s' h
  obtain ⟨callback, s₁, hcb, hrest⟩ := bind_eq_done.mp h
  obtain ⟨common, s₂, hcommon, hend⟩ := bind_eq_done.mp hrest
  obtain ⟨_, hs₂⟩ := liftParsed_done hcommon
  cases hf : callback.isFound with
  | false =>
    simp only [hf] at hend
    exact (fail_done hend).elim
  | true =>
    simp only [hf] at hend
    cases hend
    obtain ⟨_, hs₁⟩ := parseCallback_slot hcb hf
    rw [hs₂, hs₁]

end Quiet

/-! ## What a get notes -/

section Get

variable {s s' : PState} {glob own : GetOptions} {item : Option Value × Option Value} {u : Unit}

/-- What the get handler notes of a key with a format: the error of a format that is none, and
    any format but auto. -/
def noteFormat (format : Option Value) (name : String) (n : CBExc × Option Props) :
    CBExc × Option Props :=
  let spec := toSpec format
  ((spec.2.map n.1.record).getD n.1,
    if spec.1 = .auto then n.2
    else some (forceSet name (.number (.fin spec.1.toInt)) (n.2.getD [])))

theorem recordIf_notes {c : Option Complaint} (h : PState.recordIf c s = .done u s') :
    notes s' = ((c.map s.err.record).getD s.err, s.cookieKeyOptions) := by
  cases c with
  | none =>
    cases h
    rfl
  | some c =>
    cases h
    rfl

theorem keepFormat_notes {ki : CommandKey} {format : Slot (Option Value)}
    (h : GetCommand.keepFormat ki format s = .done u s') :
    notes s' = noteFormat (if format.isFound then format.v else none) ki.object.toName
      (notes s) := by
  unfold GetCommand.keepFormat at h
  by_cases hf : format.isFound
  · rw [if_pos hf] at h ⊢
    obtain ⟨_, s₁, hr, h⟩ := bind_eq_done.mp h
    have hnotes := recordIf_notes hr
    unfold noteFormat
    by_cases ha : (toSpec format.v).1 = .auto
    · rw [if_pos ha] at h
      cases h
      simp only [if_pos ha]
      exact hnotes
    · rw [if_neg ha] at h
      cases h
      simp only [if_neg ha]
      obtain ⟨herr, hopts⟩ := Prod.mk.inj hnotes
      show (s₁.err, some (forceSet _ _ (s₁.cookieKeyOptions.getD []))) = _
      rw [herr, hopts]
      rfl
  · -- no format is as good as auto
    rw [if_neg hf] at h ⊢
    cases h
    rfl

omit [Runtime] in
/-- The format a handler finds after the merge is the one that applies. -/
theorem merged_format (own glob : GetOptions) :
    (if (own.merge glob).format.isFound then (own.merge glob).format.v else none) =
      (effective own.format glob.format).join := by
  unfold GetOptions.merge effective
  by_cases ho : own.format.isFound
  · simp [ho]
  · by_cases hg : glob.format.isFound
    · simp [ho, hg]
    · simp [ho, hg]

/-- The format that applies to a key, as it was given. -/
def formatOf (glob : GetOptions) (item : Option Value × Option Value) : Option Value :=
  (effective (GetCommand.own item.2).format glob.format).join

/-- The name a key is noted under. -/
def nameOf (item : Option Value × Option Value) : String := (item.1.getD .undefined).toName

theorem get_notes {hd : Header GetOptions} {ck : CommandKey} {params : Option Value} {ix : Nat}
    (h : GetCommand.handleSingle hd ck params ix s = .done u s') :
    notes s' = noteFormat (effective (GetCommand.own params).format hd.globalOptions.format).join
      ck.object.toName (notes s) := by
  obtain ⟨own, s₁, hown, h⟩ := bind_eq_done.mp h
  obtain ⟨hopts, hs₁⟩ := keyOptions_done hown hd.globalOptions
  obtain ⟨hmerged, _⟩ := get_options hopts
  obtain ⟨p, s₂, hget, h⟩ := bind_eq_done.mp h
  obtain ⟨_, s₃, hkey, h⟩ := bind_eq_done.mp h
  have htail : ∃ f s₄, PState.assign p f s₃ = .done () s₄ ∧
      GetCommand.keepFormat ck (own.merge hd.globalOptions).format s₄ = .done u s' := by
    by_cases hlock : (own.merge hd.globalOptions).lockTime.isFound
    · simp only [if_pos hlock] at h
      obtain ⟨_, s₄, hf, h⟩ := bind_eq_done.mp h
      exact ⟨_, s₄, hf, h⟩
    · simp only [if_neg hlock] at h
      obtain ⟨_, s₄, hf, h⟩ := bind_eq_done.mp h
      exact ⟨_, s₄, hf, h⟩
  obtain ⟨f, s₄, hf, hkeep⟩ := htail
  have hquiet : notes s₄ = notes s := by
    rw [notes_noMemory.assign _ _ _ _ _ hf, notes_noMemory.assign _ _ _ _ _ hkey,
      notes_noMemory.getAt _ _ _ _ hget, ← hs₁]
  rw [keepFormat_notes hkeep, hquiet, hmerged, merged_format]

variable {cls : CommandClass GetOptions} {hd : Header GetOptions}

theorem single_notes (hcls : cls.handleSingle = GetCommand.handleSingle) {ix : Nat}
    (h : processSingle cls hd item.1 item.2 ix s = .done u s') :
    notes s' = noteFormat (formatOf hd.globalOptions item) (nameOf item) (notes s) := by
  obtain ⟨hashkey, s₁, hh, h⟩ := bind_eq_done.mp h
  obtain ⟨key, s₂, hk, h⟩ := bind_eq_done.mp h
  rw [hcls] at h
  rw [get_notes h, quiet_getBufBackedString _ _ _ _ _ _ hk, quiet_processHashkey _ _ _ _ _ _ hh]
  rfl

/-- **What is noted of all the keys.** -/
theorem process_notes (hcls : cls.handleSingle = GetCommand.handleSingle)
    (h : process cls hd s = .done u s') :
    notes s' = hd.keys.items.foldl
      (fun n item => noteFormat (formatOf hd.globalOptions item) (nameOf item) n) (notes s) := by
  rw [process_each] at h
  exact each_fold (fun _ _ _ _ h => single_notes hcls h) h

end Get

/-! ## Formats that are all valid -/

section Kept

variable {glob : GetOptions} {items : List (Option Value × Option Value)}

/-- No key has a format that is none. -/
def AllValid (glob : GetOptions) (items : List (Option Value × Option Value)) : Prop :=
  ∀ item ∈ items, GetCommand.documentedSpec glob (GetCommand.own item.2) ≠ .invalid

/-- The formats that are kept: those that are not auto, under the names of their keys. -/
def keptFormats (glob : GetOptions) (items : List (Option Value × Option Value)) : Props :=
  items.filterMap fun item =>
    let spec := GetCommand.documentedSpec glob (GetCommand.own item.2)
    if spec = .auto then none else some (nameOf item, .number (.fin spec.toInt))

/-- The table they are kept in; there is none before the first of them. -/
def keptTable (glob : GetOptions) (items : List (Option Value × Option Value))
    (opts : Option Props) : Option Props :=
  if keptFormats glob items = [] then opts
  else some (Assoc.writes (keptFormats glob items) (opts.getD []))

/-- One key whose format is one. -/
theorem noteFormat_valid {format : Option Value} (h : (toSpec format).1 ≠ .invalid) (name : String)
    (n : CBExc × Option Props) :
    noteFormat format name n = (n.1, if (toSpec format).1 = .auto then n.2
      else some (forceSet name (.number (.fin (toSpec format).1.toInt)) (n.2.getD []))) := by
  unfold noteFormat
  simp only [Discipline.toSpec_valid h]
  rfl

/-- **Valid formats are noted without an error**, and end up in the table. -/
theorem foldl_noteFormat (h : AllValid glob items) (n : CBExc × Option Props) :
    items.foldl (fun n item => noteFormat (formatOf glob item) (nameOf item) n) n =
      (n.1, keptTable glob items n.2) := by
  induction items generalizing n with
  | nil => rfl
  | cons item items ih =>
    have hitem : (toSpec (formatOf glob item)).1 ≠ .invalid := h item List.mem_cons_self
    have hitems : AllValid glob items := fun i hi => h i (List.mem_cons_of_mem _ hi)
    rw [List.foldl_cons, noteFormat_valid hitem, ih hitems]
    unfold keptTable keptFormats
    rw [List.filterMap_cons]
    by_cases ha : (toSpec (formatOf glob item)).1 = .auto
    · have ha' : GetCommand.documentedSpec glob (GetCommand.own item.2) = .auto := ha
      simp only [if_pos ha, if_pos ha']
    · have ha' : GetCommand.documentedSpec glob (GetCommand.own item.2) ≠ .auto := ha
      simp only [if_neg ha, if_neg ha', Assoc.writes_cons, reduceCtorEq, if_false]
      -- the table is there from this key on
      split
      · next hnil =>
        rw [hnil]
        rfl
      · rfl

/-- What is read from the table is the format of a key. -/
theorem keptTable_lookup {ps : Props} (hps : keptTable glob items none = some ps) {name : String}
    {v : Value} (hlook : ps.lookup name = some v) : (name, v) ∈ keptFormats glob items := by
  unfold keptTable at hps
  split at hps
  · cases hps
  · cases hps
    have hlook : (Assoc.writes (keptFormats glob items) []).lookup name = some v := hlook
    rw [Assoc.lookup_writes, List.lookup_nil, Option.or_none] at hlook
    exact List.mem_reverse.mp (Assoc.mem_of_lookup hlook)

theorem mem_keptFormats {name : String} {v : Value} :
    (name, v) ∈ keptFormats glob items ↔ ∃ item ∈ items,
      let spec := GetCommand.documentedSpec glob (GetCommand.own item.2)
      spec ≠ .auto ∧ name = nameOf item ∧ v = .number (.fin spec.toInt) := by
  unfold keptFormats
  rw [List.mem_filterMap]
  refine exists_congr fun item => and_congr_right fun _ => ?_
  by_cases ha : GetCommand.documentedSpec glob (GetCommand.own item.2) = .auto
  · simp [ha]
  · simp only [if_neg ha, Option.some.injEq, Prod.mk.injEq]
    constructor
    · rintro ⟨rfl, rfl⟩
      exact ⟨ha, rfl, rfl⟩
    · rintro ⟨_, rfl, rfl⟩
      exact ⟨rfl, rfl⟩

end Kept

section Accepted

variable {cls : CommandClass GetOptions} {args : List Value} {h : Heap} {hd : Header GetOptions}
  {st : PState}

/-- The two classes that get. -/
structure Gets (cls : CommandClass GetOptions) : Prop where
  handler : cls.handleSingle = GetCommand.handleSingle
  params : cls.params = some GetOptions.specs
  defaults : cls.defaults = {}
  format : ∀ o, (cls.afterInit o).format = o.format

theorem gets_get : Gets GetCommand := ⟨rfl, rfl, rfl, fun _ => rfl⟩

theorem gets_lock : Gets LockCommand := ⟨rfl, rfl, rfl, fun _ => rfl⟩

/-- **What an accepted get has noted**: no error, and the formats of its keys. -/
theorem accepted_notes (hg : Gets cls) (hacc : accept cls args (Command.start h) = .done hd st)
    (hvalid : AllValid (GetCommand.globals args) (callItems args)) :
    st.err = {} ∧
      st.cookieKeyOptions = keptTable (GetCommand.globals args) (callItems args) none := by
  obtain ⟨hd', s₁, hi, hacc⟩ := bind_eq_done.mp hacc
  obtain ⟨_, s₂, hp, hacc⟩ := bind_eq_done.mp hacc
  cases hacc
  obtain ⟨hkeys, _⟩ := initialize_done hi
  obtain ⟨hglob, _⟩ := get_globals cls hg.params hg.defaults (initialize_header hi)
  have hformat : formatOf hd.globalOptions = formatOf (GetCommand.globals args) := by
    funext item
    unfold formatOf
    rw [hglob, hg.format]
  have hnotes := process_notes hg.handler hp
  rw [quiet_initializeCommand _ _ _ _ _ hi, hkeys, hformat, foldl_noteFormat hvalid] at hnotes
  exact Prod.mk.inj hnotes

end Accepted

/-! ## What a store does -/

section Store

variable {op : StorageOp} {hd : Header StoreOptions} {s s' : PState} {h₀ : Heap} {n : Nat}
  {reqs : List LcbReq} {item : Option Value × Option Value}

/-- A format that a store goes on with is one nothing was said of. -/
theorem quiet_spec (own glob : StoreOptions) : Quiet (StoreCommand.spec own glob) := by
  intro s a s' h
  unfold StoreCommand.spec at h
  obtain ⟨_, s₁, hr, h⟩ := bind_eq_done.mp h
  by_cases hinv : (toSpec (StoreCommand.specObj own glob)).1 = .invalid
  · rw [if_pos hinv] at h
    cases h
  · rw [if_neg hinv] at h
    cases h
    rw [Discipline.toSpec_valid hinv] at hr
    cases hr
    rfl

theorem quiet_store (ck : CommandKey) (params : Option Value) (ix : Nat) :
    Quiet (StoreCommand.handleSingle op hd ck params ix) := by
  apply Leaves.bind (notes_noMemory.getAt ix)
  intro p
  cases params with
  | none => exact quiet_fail _
  | some v =>
    apply Leaves.bind (quiet_liftParsed _)
    intro own
    apply Leaves.bind (notes_noMemory.assign p _)
    intro _
    apply Leaves.bind (quiet_spec own _)
    intro spec
    apply Leaves.bind (quiet_encode _ spec)
    intro e
    exact notes_noMemory.assign p _

theorem quiet_single (v params : Option Value) (ix : Nat) :
    Quiet (processSingle (StoreCommand op) hd v params ix) := by
  apply Leaves.bind (quiet_processHashkey _ _ _)
  intro hashkey
  apply Leaves.bind (quiet_getBufBackedString _ _ _)
  intro key
  exact quiet_store _ _ _

/-- **An accepted store has noted nothing.** -/
theorem store_accepted_notes {args : List Value} {h : Heap} {st : PState}
    (hacc : accept (StoreCommand op) args (Command.start h) = .done hd st) :
    st.err = {} ∧ st.cookieKeyOptions = none := by
  have hquiet : Quiet (accept (StoreCommand op) args) := by
    apply Leaves.bind (quiet_initializeCommand _ _)
    intro hd
    refine Leaves.bind ?_ fun _ => .ret _
    rw [process_each]
    exact .each (fun _ _ => quiet_single _ _ _) 0 _
  exact Prod.mk.inj (hquiet _ _ _ hacc)

/-- A key that is in order has a request unless its format is none. -/
theorem inOrder_request_iff (hg : StoreSettled hd.globalOptions)
    (hin : StoreCommand.InOrder hd item) :
    storeRequest op hd item = none ↔
      StoreCommand.documentedSpec hd.globalOptions (StoreCommand.own item.2) = .invalid := by
  obtain ⟨hashkey, hhash⟩ := Option.isSome_iff_exists.mp hin.hashkey
  obtain ⟨key, hkey⟩ := Option.isSome_iff_exists.mp hin.key
  obtain ⟨p, own, v, hp, hparse, hv, henc⟩ := hin.options
  have hhash : hashkeyText (StoreCommand op) hd item.2 = some hashkey := hhash
  have hkey : backedString (StoreCommand op).getDefaultString item.1 = some key := hkey
  have hown : StoreCommand.own item.2 = own := by
    unfold StoreCommand.own
    rw [hp, hparse]
    rfl
  have hspec : StoreCommand.documentedSpec hd.globalOptions own =
      (toSpec (StoreCommand.specObj own hd.globalOptions)).1 := by
    unfold StoreCommand.documentedSpec
    rw [specObj_effective hg]
  have hrequest : storeRequest op hd item =
      StoreCommand.request op hd.globalOptions (some key) hashkey item.2 := by
    unfold storeRequest itemRequest
    simp only [hhash, hkey, Option.bind_eq_bind, Option.bind_some]
  rw [hown, hspec, hrequest, hp]
  unfold StoreCommand.request
  simp only [Option.bind_eq_bind, Option.bind_some, hparse, Parsed.toOption]
  cases hformat : StoreCommand.format own hd.globalOptions with
  | none =>
    unfold StoreCommand.format at hformat
    by_cases hinv : (toSpec (StoreCommand.specObj own hd.globalOptions)).1 = .invalid
    · exact ⟨fun _ => hinv, fun _ => rfl⟩
    · rw [if_neg hinv] at hformat
      cases hformat
  | some spec =>
    obtain ⟨hsome, hne⟩ := format_eq_some.mp hformat
    obtain ⟨⟨flags, bytes⟩, henc⟩ := Option.isSome_iff_exists.mp (henc spec hformat)
    simp only [Option.bind_some, hv, henc]
    constructor
    · intro hn
      cases hn
    · intro hinv
      exact absurd (hsome.symm.trans hinv) hne

/-- The error is one about the arguments. -/
def ArgumentsError (s : PState) : Prop := s.err.isSet = true ∧ s.err.code = ErrorCode.ARGUMENTS

theorem spec_stops {own glob : StoreOptions} (h : StoreCommand.format own glob = none)
    (herr : s.err = {}) :
    ∃ s', StoreCommand.spec own glob s = .refused s' ∧ ArgumentsError s' := by
  have hinv : (toSpec (StoreCommand.specObj own glob)).1 = .invalid := by
    by_contra hne
    simp [StoreCommand.format, hne] at h
  obtain ⟨msg, v, hc⟩ := Discipline.toSpec_invalid hinv
  refine ⟨complain (.eArguments msg v) s, ?_, ?_⟩
  · unfold StoreCommand.spec
    rw [hc, if_pos hinv]
    rfl
  · unfold ArgumentsError complain
    rw [herr]
    exact ⟨rfl, rfl⟩

/-- **Where a store stops**: at a key in order but for its format, and with an arguments error. -/
theorem single_stops (hl : Lowered h₀ n reqs s) (hlt : reqs.length < n)
    (hin : StoreCommand.InOrder hd item) (hnone : storeRequest op hd item = none)
    (herr : s.err = {}) :
    ∃ s', processSingle (StoreCommand op) hd item.1 item.2 reqs.length s = .refused s' ∧
      ArgumentsError s' := by
  obtain ⟨hashkey, hhash⟩ := Option.isSome_iff_exists.mp hin.hashkey
  obtain ⟨key, hkey⟩ := Option.isSome_iff_exists.mp hin.key
  obtain ⟨p, own, v, hp, hparse, hv, henc⟩ := hin.options
  have hhash : hashkeyText (StoreCommand op) hd item.2 = some hashkey := hhash
  have hkey : backedString (StoreCommand op).getDefaultString item.1 = some key := hkey
  have hformat : StoreCommand.format own hd.globalOptions = none := by
    by_contra hne
    obtain ⟨spec, hspec⟩ := Option.ne_none_iff_exists'.mp hne
    obtain ⟨⟨flags, bytes⟩, henc⟩ := Option.isSome_iff_exists.mp (henc spec hspec)
    unfold storeRequest itemRequest at hnone
    simp only [hhash, hkey, Option.bind_eq_bind, Option.bind_some] at hnone
    unfold StoreCommand.request at hnone
    simp [hp, hparse, Parsed.toOption, hspec, hv, henc] at hnone
  -- everything before the format leaves the notes alone
  obtain ⟨hsp, s₁, ksp, s₂, hh, hks, hl₂, hreach⟩ := single_reaches hl hhash hkey
  obtain ⟨c, s₃, hget, hb⟩ := getAt_finishes hl₂ hlt
  obtain ⟨s₄, hset, _⟩ := assign_finishes hb
    (CommandKey.setKeyV0 { object := item.1.getD .undefined, key := ksp, hashkey := hsp })
  have hquiet : notes s₄ = notes s := by
    rw [notes_noMemory.assign _ _ _ _ _ hset, notes_noMemory.getAt _ _ _ _ hget,
      quiet_getBufBackedString _ _ _ _ _ _ hks, quiet_processHashkey _ _ _ _ _ _ hh]
  obtain ⟨s', hs, herr'⟩ := spec_stops hformat ((Prod.mk.inj hquiet).1.trans herr)
  refine ⟨s', ?_, herr'⟩
  rw [hreach]
  show StoreCommand.handleSingle op hd _ item.2 reqs.length s₂ = _
  unfold StoreCommand.handleSingle
  rw [bind_of_done hget, hp]
  simp only
  rw [bind_of_done (parse_finishes (show (parseAll (some p) StoreOptions.specs {}).toOption = _ by
    rw [hparse]; rfl) s₃), bind_of_done hset, bind_of_refused hs]

/-- The loop up to the first key whose format is none. -/
theorem each_stops {items : List (Option Value × Option Value)}
    (hin : ∀ item ∈ items, StoreCommand.InOrder hd item) (hl : Lowered h₀ n reqs s)
    (hlen : reqs.length + items.length ≤ n) (herr : s.err = {})
    (hex : ∃ item ∈ items, storeRequest op hd item = none) :
    ∃ s', Prog.each (fun ix item => processSingle (StoreCommand op) hd item.1 item.2 ix)
        reqs.length items s = .refused s' ∧ ArgumentsError s' := by
  induction items generalizing reqs s with
  | nil =>
    obtain ⟨_, hmem, _⟩ := hex
    cases hmem
  | cons item items ih =>
    rw [List.length_cons] at hlen
    have hlt : reqs.length < n := by omega
    show ∃ s', (processSingle (StoreCommand op) hd item.1 item.2 reqs.length >>= fun _ =>
      Prog.each _ (reqs.length + 1) items) s = .refused s' ∧ _
    cases hreq : storeRequest op hd item with
    | none =>
      obtain ⟨s', hs, herr'⟩ := single_stops hl hlt (hin item List.mem_cons_self) hreq herr
      exact ⟨s', bind_of_refused hs, herr'⟩
    | some req =>
      obtain ⟨s₁, hs₁, hl₁⟩ := single_finishes (k := .store op) (byKey_store op) hl hlt hreq
      have hs₁ : processSingle (StoreCommand op) hd item.1 item.2 reqs.length s = .done () s₁ := hs₁
      have herr₁ : s₁.err = {} := (Prod.mk.inj (quiet_single _ _ _ _ _ _ hs₁)).1.trans herr
      have hnext : reqs.length + 1 = (reqs ++ [req]).length := by simp
      have hex₁ : ∃ item ∈ items, storeRequest op hd item = none := by
        obtain ⟨x, hx, hnone⟩ := hex
        rcases List.mem_cons.mp hx with rfl | hx
        · rw [hreq] at hnone
          cases hnone
        · exact ⟨x, hx, hnone⟩
      rw [bind_of_done hs₁, hnext]
      exact ih (fun x hx => hin x (List.mem_cons_of_mem _ hx)) hl₁ (by rw [← hnext]; omega) herr₁ hex₁

end Store

/-! ## How formats are judged -/

section Judged

variable {k : Kind} {op : StorageOp} {args : List Value} {h : Heap}

/-- The request is turned down for its arguments. -/
def RejectedArguments (k : Kind) (args : List Value) (h : Heap) : Prop :=
  ∃ st, accept k.cls args (Command.start h) = .refused st ∧ ArgumentsError st

/-- **Formats are judged as `toSpec` does**: a request in order but for its formats is turned
    down, for its arguments, if and only if a format that applies to one of its keys is none;
    one that is accepted has no error and has kept valid formats only. -/
structure Judged (k : Kind) (args : List Value) (h : Heap) : Prop where
  rejected : Command.InOrder k args →
    (RejectedArguments k args h ↔ ∃ item ∈ callItems args, specOf k args item = .invalid)
  unset : ∀ hd st, accept k.cls args (Command.start h) = .done hd st → st.err.isSet = false
  valid : ∀ hd st, accept k.cls args (Command.start h) = .done hd st →
    ∀ ps, st.cookieKeyOptions = some ps → ∀ name v, ps.lookup name = some v →
      ∃ spec, spec ≠ Spec.invalid ∧ v = .number (.fin spec.toInt)

/-- A store in order is turned down for its formats and for nothing else. -/
theorem store_rejected_iff (hin : Command.InOrder (.store op) args) :
    RejectedArguments (.store op) args h ↔
      ∃ item ∈ callItems args, specOf (.store op) args item = .invalid := by
  obtain ⟨hd, hh, hne, hitems⟩ := hin
  have hkeys : hd.keys = KeysInfo.setKeys (arg args 0) := header_keys (k := .store op) hh
  obtain ⟨hglob, hset⟩ := store_globals hh
  have hlen : hd.keys.items.length = hd.keys.ncmds := by
    rw [hkeys]
    exact items_length _
  have hpos : 0 < hd.keys.ncmds := by
    rw [← hlen]
    exact List.length_pos_iff.mpr hne
  have hspec (item : Option Value × Option Value) (hi : item ∈ hd.keys.items) :
      storeRequest op hd item = none ↔ specOf (.store op) args item = .invalid := by
    rw [inOrder_request_iff (by rw [hglob]; exact hset) (hitems item hi), hglob]
    rfl
  rw [show callItems args = hd.keys.items by rw [hkeys]]
  constructor
  · rintro ⟨st, hst, _⟩
    by_contra hall
    push Not at hall
    -- every key has a request, so the store is accepted
    have hsome (item : Option Value × Option Value) (hi : item ∈ hd.keys.items) :
        storeRequest op hd item = some ((storeRequest op hd item).getD .empty) := by
      obtain ⟨req, hreq⟩ := Option.ne_none_iff_exists'.mp
        fun hnone => hall item hi ((hspec item hi).mp hnone)
      rw [hreq]
      rfl
    have hreqs : Command.requests (.store op) hd = some _ := mapM_some hsome
    obtain ⟨st', hdone⟩ := accept_of_requests (byKey_store op) hh hpos hreqs h
    rw [hst] at hdone
    cases hdone
  · rintro ⟨item, hi, hinv⟩
    have hsize : 0 < (StoreCommand op).listSize hd.keys := hpos
    obtain ⟨s, hs⟩ := header_initialize hh hsize h
    obtain ⟨_, _, _, hl⟩ := initialize_done hs
    have herr : s.err = {} := (Prod.mk.inj (quiet_initializeCommand _ _ _ _ _ hs)).1
    obtain ⟨s', hs', herr'⟩ := each_stops hitems hl
      (by rw [List.length_nil, Nat.zero_add, hlen]; exact Nat.le_refl _) herr
      ⟨item, hi, (hspec item hi).mpr hinv⟩
    refine ⟨s', ?_, herr'⟩
    show accept (StoreCommand op) args (Command.start h) = _
    unfold accept
    rw [bind_of_done hs, process_each]
    exact bind_of_refused hs'

theorem store_judged : Judged (.store op) args h where
  rejected := store_rejected_iff
  unset hd st hacc := by
    rw [(store_accepted_notes hacc).1]
  valid hd st hacc ps hps := by
    rw [(store_accepted_notes hacc).2] at hps
    cases hps

/-- A request that gets, as far as its formats go. -/
structure GetsBy (k : Kind) (args : List Value) (h : Heap) : Prop where
  byKey : ByKey k
  inOrder : Command.InOrder k args ↔ Command.call k args ≠ none
  spec : ∀ item, specOf k args item =
    GetCommand.documentedSpec (GetCommand.globals args) (GetCommand.own item.2)
  notes : ∀ hd st, accept k.cls args (Command.start h) = .done hd st →
    AllValid (GetCommand.globals args) (callItems args) →
      st.err = {} ∧ st.cookieKeyOptions = keptTable (GetCommand.globals args) (callItems args) none

theorem getsBy_get : GetsBy .get args h :=
  ⟨byKey_gets (.inl rfl), Iff.rfl, fun _ => rfl, fun _ _ => accepted_notes gets_get⟩

theorem getsBy_lock : GetsBy .lock args h :=
  ⟨byKey_gets (.inr rfl), Iff.rfl, fun _ => rfl, fun _ _ => accepted_notes gets_lock⟩

/-- **A get judges its formats when there is none to object to**: it is accepted all the same. -/
theorem get_judged_iff (hg : GetsBy k args h) :
    Judged k args h ↔
      (Command.InOrder k args → ∀ item ∈ callItems args, specOf k args item ≠ .invalid) := by
  -- no format stops a get, so the requests in order are the accepted ones
  have accepted (hin : Command.InOrder k args) :
      ∃ hd st, accept k.cls args (Command.start h) = .done hd st := by
    obtain ⟨lcb, hcall⟩ := Option.ne_none_iff_exists'.mp (hg.inOrder.mp hin)
    exact call_accepted hg.byKey hcall h
  have inOrder {hd : Header k.Opts} {st : PState}
      (hacc : accept k.cls args (Command.start h) = .done hd st) : Command.InOrder k args := by
    obtain ⟨lcb, hcall⟩ := accepted_call hg.byKey hacc
    rw [hg.inOrder, hcall]
    exact nofun
  constructor
  · intro hj hin item hi hinv
    obtain ⟨hd, st, hacc⟩ := accepted hin
    obtain ⟨st', href, _⟩ := (hj.rejected hin).mpr ⟨item, hi, hinv⟩
    rw [hacc] at href
    cases href
  · intro hall
    have hnotes (hd : Header k.Opts) (st : PState)
        (hacc : accept k.cls args (Command.start h) = .done hd st) :=
      hg.notes hd st hacc fun item hi => by
        rw [← hg.spec item]
        exact hall (inOrder hacc) item hi
    constructor
    · intro hin
      constructor
      · rintro ⟨st, href, _⟩
        obtain ⟨hd, st', hacc⟩ := accepted hin
        rw [hacc] at href
        cases href
      · rintro ⟨item, hi, hinv⟩
        exact absurd hinv (hall hin item hi)
    · intro hd st hacc
      rw [(hnotes hd st hacc).1]
    · intro hd st hacc ps hps name v hlook
      rw [(hnotes hd st hacc).2] at hps
      obtain ⟨item, hi, _, _, hv⟩ := mem_keptFormats.mp (keptTable_lookup hps hlook)
      refine ⟨_, ?_, hv⟩
      rw [← hg.spec item]
      exact hall (inOrder hacc) item hi

/-- **When formats are judged as `toSpec` does**: by every store, and by a get or a lock in order
    whose formats are all valid. -/
theorem formats_judged_iff (hk : k = .get ∨ k = .lock ∨ ∃ op, k = .store op) :
    Judged k args h ↔ (∃ op, k = .store op) ∨
      (Command.InOrder k args → ∀ item ∈ callItems args, specOf k args item ≠ .invalid) := by
  rcases hk with rfl | rfl | ⟨op, rfl⟩
  · rw [get_judged_iff getsBy_get]
    simp
  · rw [get_judged_iff getsBy_lock]
    simp
  · exact ⟨fun _ => .inl ⟨op, rfl⟩, fun _ => store_judged⟩

end Judged

end Proof

section Example

open scoped SmallRuntime

def getFoo : List Value := [.string "a", .object [("format", .string "foo")], .function 1]

/-- A store with a format that is none. -/
theorem Proof.formats_judged_iff_store :
    Proof.Judged (.store .set)
      [.object [("a", .object [("value", .string "x")])], .object [("format", .string "foo")],
        .function 1] [] :=
  (Proof.formats_judged_iff (.inr (.inr ⟨.set, rfl⟩))).mpr (.inl ⟨.set, rfl⟩)

/-- A get with a format that is none is accepted; its error is set, and its key keeps the format. -/
theorem Proof.get_format_swallowed :
    (∃ hd st, Command.accept GetCommand getFoo (Command.start []) = .done hd st ∧
      st.err.isSet = true ∧ st.err.code = ErrorCode.ARGUMENTS ∧
      (st.cookieKeyOptions.getD []).map (fun p => (p.1, p.2.uint32Value)) =
        [("a", 4294967295)]) ∧
    Command.specOf .get getFoo (some (.string "a"), none) = .invalid ∧
    ¬ Proof.Judged .get getFoo [] := by
  obtain ⟨hd, st, hacc, htest⟩ := Outcome.exists_of_check
    (Command.accept GetCommand getFoo (Command.start []))
    (fun _ st => st.err.isSet && decide (st.err.code = ErrorCode.ARGUMENTS ∧
      (st.cookieKeyOptions.getD []).map (fun p => (p.1, p.2.uint32Value)) = [("a", 4294967295)]))
    (by decide +kernel)
  rw [Bool.and_eq_true, decide_eq_true_eq] at htest
  refine ⟨⟨hd, st, hacc, htest.1, htest.2.1, htest.2.2⟩, by decide +kernel, fun hj => ?_⟩
  have hunset := hj.unset hd st hacc
  rw [htest.1] at hunset
  cases hunset

end Example

end Couchnode
