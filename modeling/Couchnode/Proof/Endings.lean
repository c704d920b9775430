import Couchnode.Proof.Progress
import Couchnode.Spec.Options

/-!
# How a store request ends

A key that has no request ends the request it is part of. Most of the time it is turned down;
but a store that reaches a key without a value works with an empty handle, and one that is given
an object of two one-byte elements for a CAS reads past its end. `StoreCommand.crashes` says
which it is, and `store_fault_iff` which requests take the process down: those whose first key
without a request crashes, and those whose own options do.
-/

set_option autoImplicit false

namespace Couchnode

namespace Proof

open Prog Command ParamSlot ValueFormat

variable [Runtime] {O : Type}

/-! ## Refusals of the parts -/

section Parts

variable {s : PState} {v : Value} {spec : Spec}

theorem encodeUtf8_refuses (h : encodingUtf8 v = none) (s : PState) :
    ∃ s', encodeUtf8 v s = .refused s' := by
  cases v with
  | string t => cases h
  | _ => exact ⟨_, rfl⟩

/-- What has no encoding is refused: an empty `Buffer` for lack of memory, the rest by type. -/
theorem encodeAs_refuses (h : encodingAs v spec = none) (s : PState) :
    ∃ s', encodeAs v spec s = .refused s' := by
  cases spec with
  | utf8 => exact encodeUtf8_refuses (Option.map_eq_none_iff.mp h) s
  | raw =>
    cases v with
    | buffer bs =>
      have hempty : bs = [] := by
        by_contra hne
        simp [encodingAs, hne] at h
      subst hempty
      exact ⟨_, rfl⟩
    | _ =>
      simp only [encodingAs, Option.map_eq_none_iff] at h
      obtain ⟨s', hs⟩ := encodeUtf8_refuses h s
      exact ⟨s', bind_of_refused hs⟩
  | json =>
    unfold encodingAs at h
    unfold encodeAs
    cases hret : Runtime.jsonStringify v with
    | error ex => exact ⟨_, rfl⟩
    | ok ret =>
      rw [hret] at h
      obtain ⟨s', hs⟩ := encodeUtf8_refuses (Option.map_eq_none_iff.mp h) s
      exact ⟨s', bind_of_refused hs⟩
  | invalid | utf16 | auto => exact ⟨_, rfl⟩

theorem encode_refuses (h : encoding v spec = none) (s : PState) :
    ∃ s', encode (some v) spec s = .refused s' := by
  unfold encode
  by_cases hinv : spec = .invalid
  · rw [if_pos hinv]
    exact ⟨_, rfl⟩
  · rw [if_neg hinv]
    exact encodeAs_refuses h s

theorem handleBadString_refuses {dflt : Option String} (h : dflt.map utf8 = none) (msg : String)
    (s : PState) : ∃ s', handleBadString dflt msg s = .refused s' := by
  rw [Option.map_eq_none_iff.mp h]
  exact ⟨_, rfl⟩

theorem backedString_refuses {dflt : Option String} {v : Option Value}
    (h : backedString dflt v = none) (s : PState) :
    ∃ s', getBufBackedString dflt v false s = .refused s' := by
  rcases getBufBackedString_cases dflt v false with ⟨hbacked, msg, hbad⟩ | ⟨t, _, hbacked, _⟩
  · rw [hbad]
    exact handleBadString_refuses (hbacked.symm.trans h) msg s
  · rw [h] at hbacked
    cases hbacked

/-- A slot that never reads out of bounds. -/
def NeverFaults (sp : ParamSlot O) : Prop := ∀ v o, sp.parseValue v o ≠ .fault

theorem parseAll_sound {specs : List (ParamSlot O)} (h : ∀ sp ∈ specs, NeverFaults sp)
    (dict : Option Value) (o : O) : parseAll dict specs o ≠ .fault := by
  have hspecs (d : Value) : parseSpecs d specs o ≠ .fault := by
    induction specs generalizing o with
    | nil => exact nofun
    | cons sp specs ih =>
      have ih := fun o => ih (fun sp hsp => h sp (List.mem_cons_of_mem _ hsp)) o
      unfold parseSpecs
      cases d.getRealNamedProperty sp.name with
      | none => exact ih o
      | some v =>
        simp only
        cases hp : sp.parseValue v o with
        | ok o' => exact ih o'
        | bad o' c => exact nofun
        | fault => exact absurd hp (h sp List.mem_cons_self v o)
  cases dict with
  | none => exact nofun
  | some d =>
    unfold parseAll
    simp only
    split
    · split <;> exact nofun
    split
    · exact nofun
    · exact hspecs d

/-- A parse that does not fault ends well or is refused. -/
theorem parse_refuses {α : Type} {p : Parsed α} (h : p.toOption = none) (hf : p ≠ .fault)
    (s : PState) : ∃ s', PState.liftParsed p s = .refused s' := by
  cases p with
  | ok a => cases h
  | bad a c => exact ⟨_, rfl⟩
  | fault => exact absurd rfl hf

omit [Runtime] in
theorem field_sound {α : Type} {name : String} {get : O → Slot α} {set : O → Slot α → O}
    {parse : Value → Slot α → Parsed (Slot α)} (h : ∀ v s, parse v s ≠ .fault) :
    NeverFaults (field name get set parse) := by
  intro v o
  simp only [field]
  cases hp : parse v (get o) with
  | ok s =>
    intro hf
    cases hf
  | bad s c =>
    intro hf
    cases hf
  | fault => exact absurd hp (h v (get o))

theorem string_sound (v : Value) (s : Slot (Option Value)) :
    StringOption.parseValue v s ≠ .fault := by
  unfold StringOption.parseValue
  split <;> exact nofun

end Parts

/-! ## One key -/

section Single

variable {op : StorageOp} {hd : Header StoreOptions} {h₀ : Heap} {n : Nat} {reqs : List LcbReq}
  {s : PState} {item : Option Value × Option Value}

/-- A key without a request ends in a crash or a refusal. -/
def Ends (crash : Bool) (o : Outcome PState Unit) : Prop :=
  if crash then o = .fault else ∃ s', o = .refused s'

theorem spec_refuses {own glob : StoreOptions} (h : StoreCommand.format own glob = none)
    (s : PState) : ∃ s', StoreCommand.spec own glob s = .refused s' := by
  have hinv : (toSpec (StoreCommand.specObj own glob)).1 = .invalid := by
    by_contra hne
    simp [StoreCommand.format, hne] at h
  obtain ⟨s₁, hr⟩ := recordIf_finishes (toSpec (StoreCommand.specObj own glob)).2 s
  refine ⟨s₁, ?_⟩
  unfold StoreCommand.spec
  rw [bind_of_done hr, if_pos hinv]
  rfl

theorem spec_finishes {own glob : StoreOptions} {spec : Spec}
    (h : StoreCommand.format own glob = some spec) (s : PState) :
    ∃ s', StoreCommand.spec own glob s = .done spec s' := by
  obtain ⟨hspec, hne⟩ := format_eq_some.mp h
  obtain ⟨s₁, hr⟩ := recordIf_finishes (toSpec (StoreCommand.specObj own glob)).2 s
  refine ⟨s₁, ?_⟩
  unfold StoreCommand.spec
  rw [bind_of_done hr, hspec, if_neg hne]
  rfl

/-- The last steps of the handler, for a value that cannot be encoded or is not there. -/
theorem encode_ends {v : Option Value} {spec : Spec} (hspec : spec ≠ .invalid)
    (h : ∀ w, v = some w → encoding w spec = none) (s : PState) (f : Encoded → Prog PState Unit) :
    Ends (v.isNone && decide (spec ≠ .utf16)) ((encode v spec >>= f) s) := by
  cases v with
  | some w =>
    obtain ⟨s', hs⟩ := encode_refuses (h w rfl) s
    exact ⟨s', bind_of_refused hs⟩
  | none =>
    unfold Ends
    by_cases hutf : spec = .utf16
    · subst hutf
      exact ⟨_, bind_of_refused rfl⟩
    · have henc : encode none spec s = .fault := by
        unfold encode
        simp only [if_neg hspec, if_neg hutf]
        rfl
      simp only [Option.isNone_none, Bool.true_and, decide_eq_true_eq, if_pos hutf]
      exact bind_of_fault henc

/-- **How the handler ends for a key without a request.** -/
theorem store_ends {ck : CommandKey} {params : Option Value} {key hashkey : Option Bytes}
    (hl : Lowered h₀ n reqs s) (hlt : reqs.length < n)
    (hnone : StoreCommand.request op hd.globalOptions key hashkey params = none) :
    Ends (StoreCommand.crashes hd.globalOptions params)
      (StoreCommand.handleSingle op hd ck params reqs.length s) := by
  obtain ⟨p, s₁, hget, hb⟩ := getAt_finishes hl hlt
  unfold StoreCommand.handleSingle
  rw [bind_of_done hget]
  cases params with
  | none => exact ⟨_, rfl⟩
  | some v =>
    unfold StoreCommand.crashes
    unfold StoreCommand.request at hnone
    simp only [Option.bind_eq_bind, Option.bind_some] at hnone ⊢
    cases hparse : parseAll (some v) StoreOptions.specs {} with
    | fault => exact bind_of_fault rfl
    | bad o c => exact ⟨_, bind_of_refused rfl⟩
    | ok own =>
      obtain ⟨s₂, hkey, hb⟩ := assign_finishes hb ck.setKeyV0
      rw [bind_of_done (show PState.liftParsed (.ok own) s₁ = .done own s₁ from rfl),
        bind_of_done hkey]
      simp only [hparse, Parsed.toOption, Option.bind_some] at hnone
      simp only
      cases hformat : StoreCommand.format own hd.globalOptions with
      | none =>
        obtain ⟨s', hs⟩ := spec_refuses hformat s₂
        exact ⟨s', bind_of_refused hs⟩
      | some spec =>
        obtain ⟨s₃, hs⟩ := spec_finishes hformat s₂
        rw [bind_of_done hs]
        rw [hformat, Option.bind_some] at hnone
        refine encode_ends (format_eq_some.mp hformat).2 (fun w hw => ?_) s₃ _
        rw [hw, Option.bind_some] at hnone
        cases henc : encoding w spec with
        | none => rfl
        | some e =>
          rw [henc] at hnone
          cases hnone

theorem hashkey_refuses {cls : CommandClass O} {hd : Header O} {options : Option Value}
    (h : hashkeyText cls hd options = none) (s : PState) :
    ∃ s', processHashkey cls hd options s = .refused s' := by
  have hsound : parseAll options hashkeySlots { v := none } ≠ .fault := by
    refine parseAll_sound (fun sp hsp => ?_) _ _
    rw [List.mem_singleton.mp hsp]
    exact field_sound string_sound
  unfold processHashkey
  unfold hashkeyText at h
  simp only [Option.bind_eq_bind] at h
  cases hparse : (parseAll options hashkeySlots { v := none }).toOption with
  | none =>
    obtain ⟨s', hs⟩ := parse_refuses hparse hsound s
    exact ⟨s', bind_of_refused hs⟩
  | some slot =>
    rw [hparse, Option.bind_some] at h
    rw [bind_of_done (parse_finishes hparse s)]
    by_cases hf : slot.isFound
    · rw [if_pos hf] at h ⊢
      exact backedString_refuses (Option.map_eq_none_iff.mp h) s
    rw [if_neg hf] at h ⊢
    by_cases hg : hd.globalHashkey.isFound
    · rw [if_pos hg] at h ⊢
      exact backedString_refuses (Option.map_eq_none_iff.mp h) s
    · rw [if_neg hg] at h
      cases h

/-- **How a key without a request ends.** -/
theorem single_ends (hl : Lowered h₀ n reqs s) (hlt : reqs.length < n)
    (hnone : itemRequest (StoreCommand op) (StoreCommand.request op) hd item = none) :
    Ends (StoreCommand.itemCrashes hd item)
      (processSingle (StoreCommand op) hd item.1 item.2 reqs.length s) := by
  have hsame : hashkeyText (StoreCommand .set) hd item.2 = hashkeyText (StoreCommand op) hd item.2 :=
    rfl
  unfold StoreCommand.itemCrashes
  unfold itemRequest at hnone
  simp only [Option.bind_eq_bind] at hnone
  rw [hsame]
  cases hhash : hashkeyText (StoreCommand op) hd item.2 with
  | none =>
    obtain ⟨s', hs⟩ := hashkey_refuses hhash s
    exact ⟨s', bind_of_refused hs⟩
  | some hashkey =>
    rw [hhash, Option.bind_some] at hnone
    have hdflt : (StoreCommand op).getDefaultString = none := rfl
    cases hkey : backedString none item.1 with
    | none =>
      obtain ⟨hsp, s₁, hh⟩ := hashkey_finishes hl.bufs hhash
      obtain ⟨s', hs⟩ := backedString_refuses hkey s₁
      exact ⟨s', (bind_of_done hh).trans (bind_of_refused hs)⟩
    | some key =>
      obtain ⟨hsp, s₁, ksp, s₂, _, _, hl₂, hreach⟩ := single_reaches hl hhash hkey
      rw [hdflt, hkey, Option.bind_some] at hnone
      rw [hreach]
      exact store_ends hl₂ hlt hnone

end Single

/-! ## All the keys -/

section Process

variable {op : StorageOp} {h₀ : Heap} {n : Nat} {s : PState}

/-- The first of some items without a request crashes. -/
def FirstCrashes {β : Type} (f : β → Option LcbReq) (crash : β → Bool) (xs : List β) : Prop :=
  ∃ pre x post, xs = pre ++ x :: post ∧ (∀ y ∈ pre, (f y).isSome = true) ∧ f x = none ∧
    crash x = true

omit [Runtime] in
theorem firstCrashes_cons {β : Type} {f : β → Option LcbReq} {crash : β → Bool} {x : β}
    {xs : List β} :
    FirstCrashes f crash (x :: xs) ↔
      (f x = none ∧ crash x = true) ∨ ((f x).isSome = true ∧ FirstCrashes f crash xs) := by
  constructor
  · rintro ⟨pre, y, post, he, hpre, hnone, hcrash⟩
    cases pre with
    | nil =>
      rw [List.nil_append, List.cons.injEq] at he
      obtain ⟨rfl, rfl⟩ := he
      exact .inl ⟨hnone, hcrash⟩
    | cons z pre =>
      rw [List.cons_append, List.cons.injEq] at he
      obtain ⟨rfl, rfl⟩ := he
      exact .inr ⟨hpre _ List.mem_cons_self, pre, y, post, rfl,
        fun w hw => hpre w (List.mem_cons_of_mem _ hw), hnone, hcrash⟩
  · rintro (⟨hnone, hcrash⟩ | ⟨hsome, pre, y, post, rfl, hpre, hnone, hcrash⟩)
    · exact ⟨[], x, xs, rfl, fun _ hy => absurd hy List.not_mem_nil, hnone, hcrash⟩
    · refine ⟨x :: pre, y, post, rfl, fun w hw => ?_, hnone, hcrash⟩
      rcases List.mem_cons.mp hw with rfl | hw
      · exact hsome
      · exact hpre w hw

omit [Runtime] in
/-- The loop rule for faults: the first item without a request decides. -/
theorem each_fault_iff {β : Type} {f : β → Option LcbReq} {crash : β → Bool}
    {body : Nat → β → Prog PState Unit}
    (hdone : ∀ {x reqs s req}, Lowered h₀ n reqs s → reqs.length < n → f x = some req →
      ∃ s', body reqs.length x s = .done () s' ∧ Lowered h₀ n (reqs ++ [req]) s')
    (hends : ∀ {x reqs s}, Lowered h₀ n reqs s → reqs.length < n → f x = none →
      Ends (crash x) (body reqs.length x s))
    {xs : List β} {reqs : List LcbReq} (hl : Lowered h₀ n reqs s)
    (hlen : reqs.length + xs.length ≤ n) :
    Prog.each body reqs.length xs s = .fault ↔ FirstCrashes f crash xs := by
  induction xs generalizing reqs s with
  | nil =>
    constructor
    · intro h
      cases h
    · rintro ⟨pre, x, post, he, _⟩
      cases pre <;> cases he
  | cons x xs ih =>
    rw [firstCrashes_cons]
    rw [List.length_cons] at hlen
    show (body reqs.length x >>= fun _ => Prog.each body (reqs.length + 1) xs) s = .fault ↔ _
    cases hf : f x with
    | none =>
      have he := hends hl (by omega) hf
      unfold Ends at he
      cases hc : crash x with
      | true =>
        simp only [hc, if_true] at he
        rw [bind_of_fault he]
        simp
      | false =>
        simp only [hc, Bool.false_eq_true, if_false] at he
        obtain ⟨s', hs⟩ := he
        rw [bind_of_refused hs]
        simp
    | some req =>
      obtain ⟨s', hx, hl'⟩ := hdone hl (by omega) hf
      have hnext : reqs.length + 1 = (reqs ++ [req]).length := by simp
      rw [bind_of_done hx, hnext, ih hl' (by omega)]
      simp

/-- The request of one key of a store. -/
abbrev storeRequest (op : StorageOp) (hd : Header StoreOptions) :
    Option Value × Option Value → Option LcbReq :=
  itemRequest (StoreCommand op) (StoreCommand.request op) hd

theorem process_fault_iff {hd : Header StoreOptions} (hl : Lowered h₀ n [] s)
    (hlen : hd.keys.items.length ≤ n) :
    process (StoreCommand op) hd s = .fault ↔
      FirstCrashes (storeRequest op hd) (StoreCommand.itemCrashes hd) hd.keys.items := by
  rw [process_each]
  exact each_fault_iff (fun hl hlt hf => single_finishes (k := .store op) (byKey_store op) hl hlt hf)
    (fun hl hlt hf => single_ends hl hlt hf) hl (by simpa using hlen)

end Process

/-! ## The whole request -/

section Request

variable {op : StorageOp} {args : List Value} {h : Heap}

/-- The keys of a call with their options. -/
abbrev callItems (args : List Value) : List (Option Value × Option Value) :=
  (KeysInfo.setKeys (arg args 0)).items

/-- A store that takes the process down: its own options do, or the first key without a request. -/
def Crashes (op : StorageOp) (args : List Value) : Prop :=
  (callItems args ≠ [] ∧ parseAll (some (arg args 1)) StoreOptions.specs {} = .fault) ∨
    ∃ hd, header (StoreCommand op) args = some hd ∧
      FirstCrashes (storeRequest op hd) (StoreCommand.itemCrashes hd) (callItems args)

theorem parseCommonOptions_sound (args : List Value) (obj : Value) (s : PState) :
    parseCommonOptions args obj s ≠ .fault := by
  have hcb : ∃ slot s', parseCallback (lastArg args) s = .done slot s' := by
    unfold parseCallback
    rcases callable_cases (lastArg args) with hp | ⟨c, hp⟩ | ⟨_, hp⟩
    all_goals
      rw [hp]
      exact ⟨_, _, rfl⟩
  have hcommon : parseAll (some obj) commonSlots {} ≠ .fault := by
    refine parseAll_sound (fun sp hsp => ?_) _ _
    rcases List.mem_cons.mp hsp with rfl | hsp
    · exact field_sound fun _ _ => nofun
    · rw [List.mem_singleton.mp hsp]
      exact field_sound string_sound
  obtain ⟨slot, s', hs⟩ := hcb
  unfold parseCommonOptions
  rw [bind_of_done hs]
  cases hp : (parseAll (some obj) commonSlots {}).toOption with
  | none =>
    obtain ⟨s'', hr⟩ := parse_refuses hp hcommon s'
    rw [bind_of_refused hr]
    exact nofun
  | some common =>
    rw [bind_of_done (parse_finishes hp s')]
    cases slot.isFound <;> exact nofun

/-- `initialize` of a store faults in the options of the call, if there is a key at all. -/
theorem initialize_fault_iff :
    initializeCommand (StoreCommand op) args (Command.start h) = .fault ↔
      callItems args ≠ [] ∧ parseAll (some (arg args 1)) StoreOptions.specs {} = .fault := by
  have hitems : (callItems args ≠ []) ↔ 0 < (KeysInfo.setKeys (arg args 0)).ncmds := by
    rw [← items_length, List.length_pos_iff]
  rw [hitems]
  unfold initializeCommand
  simp only
  rcases Nat.eq_zero_or_pos (KeysInfo.setKeys (arg args 0)).ncmds with hz | hpos
  · have hr : ∃ s, initCommandList ((StoreCommand op).listSize (KeysInfo.setKeys (arg args 0)))
        (Command.start h) = .refused s := by
      show ∃ s, initCommandList (KeysInfo.setKeys (arg args 0)).ncmds _ = _
      rw [hz]
      exact ⟨_, rfl⟩
    obtain ⟨s, hr⟩ := hr
    rw [bind_of_refused hr]
    simp [hz]
  · obtain ⟨s, hs⟩ := initCommandList_finishes hpos h
    have hs : initCommandList ((StoreCommand op).listSize (KeysInfo.setKeys (arg args 0)))
        (Command.start h) = .done () s := hs
    rw [bind_of_done hs]
    unfold parseParams
    show ((PState.liftParsed (parseAll (some (arg args 1)) StoreOptions.specs {}) >>= _) s = _) ↔ _
    cases hp : parseAll (some (arg args 1)) StoreOptions.specs {} with
    | fault => exact ⟨fun _ => ⟨hpos, rfl⟩, fun _ => bind_of_fault rfl⟩
    | bad o c =>
      rw [bind_of_refused (x := PState.liftParsed (.bad o c)) rfl]
      simp
    | ok o =>
      rw [bind_of_done (show PState.liftParsed (.ok o) s = .done o s from rfl), bind_eq_fault]
      apply iff_of_false
      · rintro (hf | ⟨_, _, _, hf⟩)
        · exact parseCommonOptions_sound args (arg args 1) s hf
        · cases hf
      · intro hf
        cases hf.2

/-- **Which stores take the process down.** -/
theorem store_fault_iff :
    accept (StoreCommand op) args (Command.start h) = .fault ↔ Crashes op args := by
  unfold accept Crashes
  rw [bind_eq_fault, show initializeCommand (StoreCommand op) args (Command.start h) = .fault ↔ _
    from initialize_fault_iff]
  apply or_congr_right
  have hlen {hd : Header StoreOptions} (hkeys : hd.keys = KeysInfo.setKeys (arg args 0)) :
      hd.keys.items.length ≤ (StoreCommand op).listSize hd.keys := by
    rw [hkeys]
    exact Nat.le_of_eq (items_length _)
  constructor
  · rintro ⟨hd, s, hi, hf⟩
    obtain ⟨hkeys, _, _, hl⟩ := initialize_done hi
    -- after `process` there is nothing left that could fault
    have hproc : process (StoreCommand op) hd s = .fault := by
      rcases bind_eq_fault.mp hf with hf | ⟨_, _, _, hf⟩
      · exact hf
      · cases hf
    have hfirst := (process_fault_iff hl (hlen hkeys)).mp hproc
    rw [hkeys] at hfirst
    exact ⟨hd, initialize_header hi, hfirst⟩
  · rintro ⟨hd, hh, hfirst⟩
    -- a key crashes, so there is one, and `initialize` gets that far
    have hpos : 0 < (StoreCommand op).listSize hd.keys := by
      obtain ⟨pre, x, post, he, _⟩ := hfirst
      show 0 < hd.keys.ncmds
      rw [header_keys (k := .store op) hh, ← items_length, List.length_pos_iff]
      intro hn
      rw [callItems, hn] at he
      cases pre <;> cases he
    obtain ⟨s, hs⟩ := header_initialize hh hpos h
    obtain ⟨hkeys, _, _, hl⟩ := initialize_done hs
    refine ⟨hd, s, hs, bind_eq_fault.mpr (.inl ?_)⟩
    apply (process_fault_iff hl (hlen hkeys)).mpr
    rw [hkeys]
    exact hfirst

end Request

end Proof

end Couchnode
