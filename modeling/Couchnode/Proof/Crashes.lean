import Couchnode.Proof.HttpRequest
import Couchnode.Proof.Queue

/-!
# What takes the process down

Three things in the validators end the process instead of the request: a CAS of two short elements
is read past its end, a store works with an empty handle where a key has no value, and an HTTP
request without a path aborts. `Kind.Fatal` says for every class which calls come to one of them,
reading nothing but the arguments, and `accept_fault_iff` that no other does.

A call that gets past the validators is never stopped (`submit_moves`), and a queue that is sound
can be worked off (`drain_advances`). So in a running connection every step whose turn it is goes
through, a fatal request excepted: `advances_unless_fatal`.
-/

set_option autoImplicit false

namespace Couchnode

/-- Two elements that have fewer bytes than are read of them. -/
def Cas.isShort (v : Value) : Bool :=
  v.isObject && v.externalArrayDataLength = 2 &&
    (v.externalArray.any fun a => a.2.length < 8)

section Fatal

variable [Runtime]

/-- The CAS among some options is short. -/
def shortCas (options : Option Value) : Bool :=
  (Proof.optionOf options NameMap.cas).any Cas.isShort

namespace Kind

/-- The options of a call are read past their end. -/
def fatalOptions (k : Kind) (options : Value) : Bool :=
  match k with
  | .store _ | .unlock | .delete => shortCas (some options)
  | _ => false

/-- The handler of a class crashes on a key with these options. -/
def fatalHandler : (k : Kind) → k.Opts → Option Value → Bool
  | .store _, glob, params => StoreCommand.crashes glob params
  | .unlock, _, params | .delete, _, params | .endure, _, params => shortCas params
  | .http, glob, _ => !glob.path.isFound
  | _, _, _ => false

/-- The handler is reached for a key, and crashes. -/
def fatalItem (k : Kind) (hd : Header k.Opts) (item : Option Value × Option Value) : Bool :=
  (Command.hashkeyText k.cls hd item.2).isSome &&
    (backedString k.cls.getDefaultString item.1).isSome && k.fatalHandler hd.globalOptions item.2

/-- **A call that takes the process down**: its own options do, or the first key without a
    request. -/
def Fatal (k : Kind) (args : List Value) : Prop :=
  (Proof.callItems args ≠ [] ∧ k.fatalOptions (Command.arg args 1) = true) ∨
    ∃ hd, Command.header k.cls args = some hd ∧
      Proof.FirstCrashes (Command.itemRequest k.cls k.request hd) (k.fatalItem hd)
        (Proof.callItems args)

end Kind

end Fatal

namespace Proof

open Prog Command ParamSlot

variable [Runtime] {O : Type}

/-! ## The CAS of some options -/

section ShortCas

variable {get : O → Slot Nat} {set : O → Slot Nat → O} {specs : List (ParamSlot O)}
  {dict : Option Value} {o : O}

omit [Runtime] in
theorem getCas_overread (v : Value) : Cas.getCas v = .overread ↔ Cas.isShort v = true := by
  unfold Cas.getCas Cas.isShort
  cases v.isObject with
  | false => simp
  | true =>
    by_cases hlen : v.externalArrayDataLength = 2
    · cases v.externalArray with
      | none => simp [hlen]
      | some a =>
        by_cases hb : a.2.length < 8 <;> simp [hlen, hb]
    · simp [hlen]

omit [Runtime] in
theorem casSlot_fault (v : Value) (s : Slot Nat) :
    CasSlot.parseValue v s = .fault ↔ Cas.isShort v = true := by
  rw [← getCas_overread]
  unfold CasSlot.parseValue
  by_cases hf : maybeSetFalse v = true
  · rw [if_pos hf]
    apply iff_of_false nofun
    intro h
    have hobj : v.isObject = false := by
      cases v <;> first | rfl | cases hf
    simp [Cas.getCas, hobj] at h
  · rw [if_neg hf]
    cases Cas.getCas v with
    | notCas => exact iff_of_false nofun nofun
    | cas c => exact iff_of_false nofun nofun
    | overread => exact iff_of_true rfl rfl

/-- **A record that begins with a CAS is read past its end by a short one**, and by nothing else. -/
theorem casFirst_fault (hspecs : ∀ sp ∈ specs, NeverFaults sp) :
    parseAll dict (field NameMap.cas get set CasSlot.parseValue :: specs) o = .fault ↔
      shortCas dict = true := by
  cases dict with
  | none => simp [parseAll, shortCas, optionOf]
  | some d =>
    unfold shortCas optionOf parseAll
    by_cases hobj : d.isObject = true
    · by_cases hnames : d.propertyNames.isEmpty = true
      · simp [hobj, hnames]
      · simp only [hobj, hnames, Bool.not_true, Bool.false_eq_true, if_false, Bool.not_false,
          Bool.and_self, if_true]
        have hrest (o : O) : parseSpecs d specs o ≠ .fault := by
          have hall := parseAll_sound hspecs (some d) o
          simpa [parseAll, hobj, hnames] using hall
        have hname : (field NameMap.cas get set CasSlot.parseValue).name = NameMap.cas := rfl
        unfold parseSpecs
        rw [hname]
        cases d.getRealNamedProperty NameMap.cas with
        | none => simp [hrest o]
        | some v =>
          rw [Option.any_some, ← casSlot_fault v (get o)]
          simp only [field]
          cases CasSlot.parseValue v (get o) with
          | ok s => simp [hrest (set o s)]
          | bad s c => simp
          | fault => simp
    · by_cases htruthy : d.truthy = true <;> simp [hobj, htruthy]

end ShortCas

/-! ## The options of a call -/

section CallOptions

omit [Runtime] in
theorem v8Value_sound (v : Value) (s : Slot (Option Value)) :
    V8ValueOption.parseValue v s ≠ .fault := nofun

omit [Runtime] in
theorem boolean_sound (v : Value) (s : Slot Bool) : BooleanOption.parseValue v s ≠ .fault := nofun

omit [Runtime] in
theorem getSpecs_sound : ∀ sp ∈ GetOptions.specs, NeverFaults sp := by
  simp only [GetOptions.specs, List.forall_mem_cons]
  exact ⟨field_sound (numeric_sound _), field_sound (numeric_sound _), field_sound v8Value_sound,
    List.forall_mem_nil _⟩

omit [Runtime] in
theorem arithmeticSpecs_sound : ∀ sp ∈ ArithmeticOptions.specs, NeverFaults sp := by
  simp only [ArithmeticOptions.specs, List.forall_mem_cons]
  exact ⟨field_sound (numeric_sound _), field_sound (numeric_sound _),
    field_sound (numeric_sound _), List.forall_mem_nil _⟩

omit [Runtime] in
theorem touchSpecs_sound : ∀ sp ∈ TouchOptions.specs, NeverFaults sp := by
  simp only [TouchOptions.specs, List.forall_mem_cons]
  exact ⟨field_sound (numeric_sound _), List.forall_mem_nil _⟩

omit [Runtime] in
theorem durabilitySpecs_sound : ∀ sp ∈ DurabilityOptions.specs, NeverFaults sp := by
  simp only [DurabilityOptions.specs, List.forall_mem_cons]
  exact ⟨field_sound (numeric_sound _), field_sound (numeric_sound _), field_sound boolean_sound,
    field_sound (numeric_sound _), List.forall_mem_nil _⟩

theorem httpSpecs_sound : ∀ sp ∈ HttpOptions.specs, NeverFaults sp := by
  simp only [HttpOptions.specs, List.forall_mem_cons]
  exact ⟨field_sound string_sound, field_sound string_sound, field_sound string_sound,
    field_sound (numeric_sound _), field_sound (numeric_sound _), List.forall_mem_nil _⟩

theorem storeParse_fault (dict : Option Value) (o : StoreOptions) :
    parseAll dict StoreOptions.specs o = .fault ↔ shortCas dict = true := by
  apply casFirst_fault
  simp only [List.forall_mem_cons]
  exact ⟨field_sound (numeric_sound _), field_sound v8Value_sound, field_sound v8Value_sound,
    field_sound (numeric_sound _), nofun⟩

theorem unlockParse_fault (dict : Option Value) (o : UnlockOptions) :
    parseAll dict UnlockOptions.specs o = .fault ↔ shortCas dict = true :=
  casFirst_fault nofun

theorem endureParse_fault (dict : Option Value) (o : Slot Nat) :
    parseAll dict EndureCommand.casSlots o = .fault ↔ shortCas dict = true :=
  casFirst_fault nofun

theorem liftParsed_fault {α : Type} {p : Parsed α} {s : PState} :
    PState.liftParsed p s = .fault ↔ p = .fault := by
  cases p with
  | ok a => exact iff_of_false nofun nofun
  | bad a c => exact iff_of_false nofun nofun
  | fault => exact iff_of_true rfl rfl

/-- **Which options of a call are read past their end.** -/
theorem parseParams_fault (k : Kind) (v : Value) (s : PState) :
    parseParams k.cls v s = .fault ↔ k.fatalOptions v = true := by
  have sound {O : Type} {specs : List (ParamSlot O)} (h : ∀ sp ∈ specs, NeverFaults sp) (o : O) :
      PState.liftParsed (parseAll (some v) specs o) s ≠ .fault :=
    fun hf => parseAll_sound h (some v) o (liftParsed_fault.mp hf)
  cases k with
  | get | lock => exact iff_of_false (sound getSpecs_sound _) nofun
  | touch => exact iff_of_false (sound touchSpecs_sound _) nofun
  | arithmetic => exact iff_of_false (sound arithmeticSpecs_sound _) nofun
  | endure => exact iff_of_false (sound durabilitySpecs_sound _) nofun
  | http => exact iff_of_false (sound httpSpecs_sound _) nofun
  | observe | stats => exact iff_of_false nofun nofun
  | store op => exact liftParsed_fault.trans (storeParse_fault (some v) _)
  | unlock | delete => exact liftParsed_fault.trans (unlockParse_fault (some v) _)

end CallOptions

/-! ## The handlers -/

section Handlers

variable {h₀ : Heap} {n : Nat} {reqs : List LcbReq} {s : PState} {ck : CommandKey}
  {params : Option Value} {key hashkey : Option Bytes}

/-- What ends with a parse that has no result, ends as the parse does. -/
theorem parse_ends {α : Type} {p : Parsed α} {crash : Bool} (h : p.toOption = none)
    (hc : p = .fault ↔ crash = true) (f : α → Prog PState Unit) (s : PState) :
    Ends crash ((PState.liftParsed p >>= f) s) := by
  unfold Ends
  cases crash with
  | true => exact bind_of_fault (liftParsed_fault.mpr (hc.mpr rfl))
  | false =>
    have hne : p ≠ .fault := fun hf => Bool.false_ne_true (hc.mp hf)
    obtain ⟨s', hs⟩ := parse_refuses h hne s
    exact ⟨s', bind_of_refused hs⟩

theorem sound_parse {specs : List (ParamSlot O)} (h : ∀ sp ∈ specs, NeverFaults sp)
    (dict : Option Value) (o : O) : parseAll dict specs o = .fault ↔ false = true :=
  iff_of_false (parseAll_sound h dict o) nofun

theorem get_ends {hd : Header GetOptions}
    (hnone : GetCommand.request hd.globalOptions key hashkey params = none) (ix : Nat) :
    Ends false (GetCommand.handleSingle hd ck params ix s) := by
  have hnone := Option.map_eq_none_iff.mp hnone
  unfold GetCommand.options at hnone
  cases params with
  | none => cases hnone
  | some p =>
    by_cases hp : p.isObject = true
    · simp only [if_pos hp] at hnone
      have hkey : GetCommand.keyOptions (some p) =
          PState.liftParsed (parseAll (some p) GetOptions.specs {}) := if_pos hp
      unfold GetCommand.handleSingle
      rw [hkey]
      exact parse_ends (Option.map_eq_none_iff.mp hnone) (sound_parse getSpecs_sound _ _) _ s
    · simp only [if_neg hp] at hnone
      cases hnone

theorem unlock_ends (hd : Header UnlockOptions)
    (hnone : UnlockCommand.request hd.globalOptions key hashkey params = none) (ix : Nat) :
    Ends (shortCas params) (UnlockCommand.handleSingle hd ck params ix s) := by
  cases params with
  | none => exact ⟨_, rfl⟩
  | some p =>
    unfold UnlockCommand.handleSingle
    have hfault := unlockParse_fault (some p) {}
    cases hparse : (parseAll (some p) UnlockOptions.specs {}).toOption with
    | none => exact parse_ends hparse hfault _ s
    | some own =>
      -- the options are read, so it is the CAS that is missing
      have hsafe : shortCas (some p) = false := by
        rw [toOption_ok hparse] at hfault
        exact Bool.eq_false_iff.mpr fun hs => nomatch hfault.mpr hs
      have hcas : own.cas.isFound = false := by
        unfold UnlockCommand.request at hnone
        simp only [Option.bind_eq_bind, Option.bind_some, hparse] at hnone
        exact Bool.eq_false_iff.mpr fun hf => by simp [hf] at hnone
      simp only
      rw [hsafe, bind_of_done (parse_finishes hparse s), hcas]
      exact ⟨_, rfl⟩

/-- **How a handler ends for a key without a request.** -/
theorem kind_ends {k : Kind} {hd : Header k.Opts} (hk : ByKey k) (hl : Lowered h₀ n reqs s)
    (hlt : reqs.length < n) (hnone : k.request hd.globalOptions key hashkey params = none) :
    Ends (k.fatalHandler hd.globalOptions params)
      (k.cls.handleSingle hd ck params reqs.length s) := by
  obtain ⟨p, s₁, hget, hb⟩ := getAt_finishes hl hlt
  obtain ⟨s₂, hkey, _⟩ := assign_finishes hb ck.setKeyV0
  cases k with
  | get | lock => exact get_ends hnone _
  | store op => exact store_ends hl hlt hnone
  | unlock => exact unlock_ends hd hnone _
  | touch =>
    exact parse_ends (Option.map_eq_none_iff.mp hnone) (sound_parse touchSpecs_sound _ _) _ s
  | arithmetic =>
    show Ends false (ArithmeticCommand.handleSingle hd ck params reqs.length s)
    unfold ArithmeticCommand.handleSingle
    rw [bind_of_done hget]
    exact parse_ends (Option.map_eq_none_iff.mp hnone) (sound_parse arithmeticSpecs_sound _ _) _ s₁
  | delete =>
    exact parse_ends (Option.map_eq_none_iff.mp hnone) (unlockParse_fault params {}) _ s
  | observe => cases hnone
  | endure =>
    show Ends (shortCas params) (EndureCommand.handleSingle hd ck params reqs.length s)
    unfold EndureCommand.handleSingle
    rw [bind_of_done hget, bind_of_done hkey]
    exact parse_ends (Option.map_eq_none_iff.mp hnone) (endureParse_fault params _) _ s₂
  | stats => exact absurd rfl hk.1
  | http => exact absurd rfl hk.2

end Handlers

/-! ## One key -/

section Single

variable {k : Kind} {hd : Header k.Opts} {h₀ : Heap} {n : Nat} {reqs : List LcbReq} {s : PState}
  {item : Option Value × Option Value}

/-- A key whose text or hashkey is missing is turned down; the others reach the handler. -/
theorem single_cases (hd : Header k.Opts) (item : Option Value × Option Value)
    (hl : Lowered h₀ n reqs s) :
    (k.fatalItem hd item = false ∧ itemRequest k.cls k.request hd item = none ∧
      ∀ ix, ∃ s', processSingle k.cls hd item.1 item.2 ix s = .refused s') ∨
    ∃ ck key hashkey s', Lowered h₀ n reqs s' ∧
      k.fatalItem hd item = k.fatalHandler hd.globalOptions item.2 ∧
      itemRequest k.cls k.request hd item = k.request hd.globalOptions key hashkey item.2 ∧
      ∀ ix, processSingle k.cls hd item.1 item.2 ix s = k.cls.handleSingle hd ck item.2 ix s' := by
  unfold Kind.fatalItem itemRequest
  cases hhash : hashkeyText k.cls hd item.2 with
  | none =>
    refine .inl ⟨rfl, rfl, fun ix => ?_⟩
    obtain ⟨s', hs⟩ := hashkey_refuses hhash s
    exact ⟨s', bind_of_refused hs⟩
  | some hashkey =>
    cases hkey : backedString k.cls.getDefaultString item.1 with
    | none =>
      refine .inl ⟨rfl, rfl, fun ix => ?_⟩
      obtain ⟨hsp, s₁, hh⟩ := hashkey_finishes hl.bufs hhash
      obtain ⟨s', hs⟩ := backedString_refuses hkey s₁
      exact ⟨s', (bind_of_done hh).trans (bind_of_refused hs)⟩
    | some key =>
      obtain ⟨hsp, s₁, ksp, s₂, _, _, hl₂, hreach⟩ := single_reaches hl hhash hkey
      exact .inr ⟨_, some key, hashkey, s₂, hl₂, rfl, rfl, hreach⟩

/-- **How a key without a request ends**, in a class with one command for each key. -/
theorem item_ends (hk : ByKey k) (hl : Lowered h₀ n reqs s) (hlt : reqs.length < n)
    (hnone : itemRequest k.cls k.request hd item = none) :
    Ends (k.fatalItem hd item) (processSingle k.cls hd item.1 item.2 reqs.length s) := by
  rcases single_cases hd item hl with
    ⟨hsafe, _, hrefused⟩ | ⟨ck, key, hashkey, s', hl', he, hr, hreach⟩
  · rw [hsafe]
    exact hrefused _
  · rw [he, hreach]
    exact kind_ends hk hl' hlt (hr.symm.trans hnone)

end Single

/-! ## The classes with one command for the whole call -/

section Alone

variable {k : Kind} {h₀ : Heap} {s : PState} {ck : CommandKey} {params : Option Value}

/-- A string option that was read holds nothing or a string. -/
theorem slotText_read {found : Option Value} {slot : Slot (Option Value)}
    (h : readSlot StringOption.parseValue found { v := none } = .ok slot) :
    ∃ t, SlotText slot t := by
  cases found with
  | none =>
    cases h
    exact ⟨none, rfl, nofun⟩
  | some v =>
    unfold readSlot StringOption.parseValue at h
    simp only at h
    split at h
    · cases h
    · cases h
      by_cases ht : v.toName = ""
      · exact ⟨none, by simp [HttpCommand.given, Slot.isFound, Value.truthy, ht], nofun⟩
      · refine ⟨some v.toName, by simp [HttpCommand.given, Slot.isFound, Value.truthy, ht], ?_⟩
        intro x hx
        cases hx
        exact ⟨rfl, ht⟩

/-- The options of an HTTP request hold strings. -/
theorem http_slots {args : List Value} {hd : Header HttpOptions}
    (hh : header HttpCommand args = some hd) :
    (∃ t, SlotText hd.globalOptions.path t) ∧ (∃ t, SlotText hd.globalOptions.contentType t) ∧
      ∃ t, SlotText hd.globalOptions.content t := by
  obtain ⟨o, ho, hglob⟩ := header_options hh
  have hparse : parseAll (some (arg args 1)) HttpOptions.specs {} = .ok o := toOption_ok ho
  have hobj := optionsObject_of_ok hparse
  rw [parseAll_eq hobj] at hparse
  obtain ⟨hpath, hcontent, hct, _⟩ := http_parsed.mp hparse
  rw [hglob]
  exact ⟨slotText_read hpath, slotText_read hct, slotText_read hcontent⟩

omit [Runtime] in
/-- A text that is there is given. -/
theorem SlotText.some_of_given {slot : Slot (Option Value)} {t : Option String}
    (h : SlotText slot t) (hg : HttpCommand.given slot = true) : ∃ x, t = some x :=
  Option.isSome_iff_exists.mp (h.given.symm.trans hg)

/-- The handler of an HTTP request aborts without a path, and only then. -/
theorem http_fault_iff {hd : Header HttpOptions} (hl : Lowered h₀ 1 [] s)
    (hpath : ∃ t, SlotText hd.globalOptions.path t)
    (hct : ∃ t, SlotText hd.globalOptions.contentType t)
    (hcontent : ∃ t, SlotText hd.globalOptions.content t) :
    HttpCommand.handleSingle hd ck params 0 s = .fault ↔
      (!hd.globalOptions.path.isFound) = true := by
  cases hfound : hd.globalOptions.path.isFound with
  | false => exact iff_of_true (handler_fault hl hfound) rfl
  | true =>
    apply iff_of_false _ nofun
    intro hf
    cases hvalid : HttpCommand.valid hd.globalOptions with
    | false =>
      have hr : ∃ s', HttpCommand.handleSingle hd ck params 0 s = .refused s' :=
        handler_refuses hl hfound hvalid
      obtain ⟨s', hs⟩ := hr
      cases hs.symm.trans hf
    | true =>
      rw [valid_eq] at hvalid
      obtain ⟨hrest, hmethod⟩ := Bool.and_eq_true_iff.mp hvalid
      obtain ⟨hgiven, htype⟩ := Bool.and_eq_true_iff.mp hrest
      obtain ⟨t, ht⟩ := hpath
      obtain ⟨path, rfl⟩ := ht.some_of_given hgiven
      obtain ⟨_, hct⟩ := hct
      obtain ⟨_, hcontent⟩ := hcontent
      obtain ⟨_, _, s', hs, _⟩ := handler_finishes hl hfound hmethod htype ht hct hcontent
      cases hs.symm.trans hf

/-- **When the handler of such a class crashes**, for the first key. -/
theorem alone_fault_iff {args : List Value} {hd : Header k.Opts} (hk : ¬ ByKey k)
    (hh : header k.cls args = some hd) (hl : Lowered h₀ 1 [] s) :
    k.cls.handleSingle hd ck params 0 s = .fault ↔
      k.fatalHandler hd.globalOptions params = true := by
  cases k with
  | stats =>
    apply iff_of_false _ nofun
    obtain ⟨p, s₁, hget, hb⟩ := getAt_finishes hl Nat.zero_lt_one
    obtain ⟨s₂, hkey, _⟩ := assign_finishes hb fun c => { c with key := ck.key }
    have hdone : StatsCommand.handleSingle hd ck params 0 s = .done () s₂ :=
      (bind_of_done hget).trans hkey
    intro hf
    cases hdone.symm.trans hf
  | http =>
    obtain ⟨hpath, hct, hcontent⟩ := http_slots hh
    show HttpCommand.handleSingle hd ck params 0 s = .fault ↔
      (!hd.globalOptions.path.isFound) = true
    exact http_fault_iff hl hpath hct hcontent
  | _ => exact absurd ⟨nofun, nofun⟩ hk

/-- It turns every other key down. -/
theorem alone_second {hd : Header k.Opts} {ix : Nat} (hk : ¬ ByKey k) (hix : ix ≠ 0) :
    ∃ s', k.cls.handleSingle hd ck params ix s = .refused s' := by
  cases k with
  | stats => exact ⟨_, by
      show StatsCommand.handleSingle hd ck params ix s = _
      unfold StatsCommand.handleSingle
      rw [if_pos hix]
      rfl⟩
  | http => exact ⟨_, by
      show HttpCommand.handleSingle hd ck params ix s = _
      unfold HttpCommand.handleSingle
      rw [if_pos hix]
      rfl⟩
  | _ => exact absurd ⟨nofun, nofun⟩ hk

/-- Without a path an HTTP request asks for nothing. -/
theorem alone_request {hd : Header k.Opts} {key hashkey : Option Bytes} (hk : ¬ ByKey k)
    (hfatal : k.fatalHandler hd.globalOptions params = true) :
    k.request hd.globalOptions key hashkey params = none := by
  cases k with
  | stats => cases hfatal
  | http =>
    have hfound : hd.globalOptions.path.isFound = false := by
      simpa [Kind.fatalHandler] using hfatal
    have hvalid : HttpCommand.valid hd.globalOptions = false := by
      unfold HttpCommand.valid HttpCommand.given
      rw [hfound]
      rfl
    show HttpCommand.request hd.globalOptions key hashkey params = none
    unfold HttpCommand.request
    rw [hvalid]
    rfl
  | _ => exact absurd ⟨nofun, nofun⟩ hk

/-- What is asked of the handler does not depend on the key. -/
theorem alone_handler {hd : Header k.Opts} {params' : Option Value} (hk : ¬ ByKey k) :
    k.fatalHandler hd.globalOptions params = k.fatalHandler hd.globalOptions params' := by
  cases k with
  | stats | http => rfl
  | _ => exact absurd ⟨nofun, nofun⟩ hk

/-- After the first key nothing crashes. -/
theorem alone_rest {hd : Header k.Opts} {req : LcbReq} (hk : ¬ ByKey k)
    (hl : Lowered h₀ 1 [req] s) (items : List (Option Value × Option Value)) :
    Prog.each (fun ix e => processSingle k.cls hd e.1 e.2 ix) 1 items s ≠ .fault := by
  cases items with
  | nil => exact nofun
  | cons item items =>
    have hrefused : ∃ s', processSingle k.cls hd item.1 item.2 1 s = .refused s' := by
      rcases single_cases hd item hl with ⟨_, _, hrefused⟩ | ⟨ck, _, _, s', _, _, _, hreach⟩
      · exact hrefused 1
      · rw [hreach]
        exact alone_second hk Nat.one_ne_zero
    obtain ⟨s', hs⟩ := hrefused
    show (processSingle k.cls hd item.1 item.2 1 >>= fun _ => Prog.each _ 2 items) s ≠ .fault
    rw [bind_of_refused hs]
    exact nofun

/-- **The keys of such a call**: the first decides. -/
theorem alone_each {args : List Value} {hd : Header k.Opts} (hk : ¬ ByKey k)
    (hh : header k.cls args = some hd) (hl : Lowered h₀ 1 [] s) :
    process k.cls hd s = .fault ↔
      FirstCrashes (itemRequest k.cls k.request hd) (k.fatalItem hd) hd.keys.items := by
  rw [process_each]
  cases hd.keys.items with
  | nil =>
    apply iff_of_false nofun
    rintro ⟨pre, x, post, he, _⟩
    cases pre <;> cases he
  | cons item items =>
    rw [firstCrashes_cons]
    show (processSingle k.cls hd item.1 item.2 0 >>= fun _ =>
      Prog.each (fun ix e => processSingle k.cls hd e.1 e.2 ix) 1 items) s = .fault ↔ _
    rcases single_cases hd item hl with
      ⟨hsafe, hnone, hrefused⟩ | ⟨ck, key, hashkey, s', hl', he, hr, hreach⟩
    · obtain ⟨s', hs⟩ := hrefused 0
      rw [bind_of_refused hs, hsafe, hnone]
      exact iff_of_false nofun nofun
    · rw [bind_eq_fault, hreach, alone_fault_iff hk hh hl', he]
      constructor
      · rintro (hfatal | ⟨_, s₁, hdone, hf⟩)
        · exact .inl ⟨hr.trans (alone_request hk hfatal), hfatal⟩
        · rw [← hreach] at hdone
          obtain ⟨req, _, hl₁⟩ := single_lowers (kind_lowers k) hl hdone
          exact absurd hf (alone_rest hk hl₁ items)
      · rintro (⟨_, hfatal⟩ | ⟨hsome, pre, x, post, _, _, _, hcrash⟩)
        · exact .inl hfatal
        · have hfatal := (Bool.and_eq_true_iff.mp hcrash).2
          rw [alone_handler hk] at hfatal
          rw [hr, alone_request hk hfatal] at hsome
          cases hsome

end Alone

/-! ## The whole call -/

section Call

variable {k : Kind} {args : List Value} {h : Heap}

theorem listSize_alone (hk : ¬ ByKey k) : k.cls.listSize = fun _ => 1 := by
  cases k with
  | stats | http => rfl
  | _ => exact absurd ⟨nofun, nofun⟩ hk

theorem items_ne_nil : callItems args ≠ [] ↔ 0 < (KeysInfo.setKeys (arg args 0)).ncmds := by
  rw [← items_length, List.length_pos_iff]

/-- **When the keys of a call take the process down.** -/
theorem keys_fault_iff {hd : Header k.Opts} {s : PState} (hh : header k.cls args = some hd)
    (hl : Lowered h (k.cls.listSize hd.keys) [] s) :
    process k.cls hd s = .fault ↔
      FirstCrashes (itemRequest k.cls k.request hd) (k.fatalItem hd) hd.keys.items := by
  by_cases hk : ByKey k
  · have hlen : hd.keys.items.length ≤ k.cls.listSize hd.keys := by
      rw [header_keys hh, hk.listSize]
      exact Nat.le_of_eq (items_length _)
    rw [process_each]
    exact each_fault_iff (fun hl hlt hf => single_finishes hk hl hlt hf)
      (fun hl hlt hf => item_ends hk hl hlt hf) hl (by simpa using hlen)
  · rw [listSize_alone hk] at hl
    exact alone_each hk hh hl

/-- When its options do: a call without keys does not get as far. -/
theorem options_fault_iff :
    initializeCommand k.cls args (Command.start h) = .fault ↔
      callItems args ≠ [] ∧ k.fatalOptions (arg args 1) = true := by
  have hitems (hf : k.fatalOptions (arg args 1) = true) :
      callItems args ≠ [] ↔ 0 < k.cls.listSize (KeysInfo.setKeys (arg args 0)) := by
    have hk : ByKey k := by
      cases k <;> first | cases hf | exact ⟨nofun, nofun⟩
    rw [items_ne_nil, hk.listSize]
  unfold initializeCommand
  simp only
  rcases Nat.eq_zero_or_pos (k.cls.listSize (KeysInfo.setKeys (arg args 0))) with hz | hpos
  · have hr : ∃ s, initCommandList 0 (Command.start h) = .refused s := ⟨_, rfl⟩
    obtain ⟨s, hr⟩ := hr
    rw [hz, bind_of_refused hr]
    apply iff_of_false nofun
    rintro ⟨hne, hf⟩
    have hpos := (hitems hf).mp hne
    omega
  · obtain ⟨s, hs⟩ := initCommandList_finishes hpos h
    rw [bind_of_done hs, bind_eq_fault, parseParams_fault]
    constructor
    · rintro (hf | ⟨_, s₁, _, hf⟩)
      · exact ⟨(hitems hf).mpr hpos, hf⟩
      · rcases bind_eq_fault.mp hf with hf | ⟨_, _, _, hf⟩
        · exact absurd hf (parseCommonOptions_sound args (arg args 1) s₁)
        · cases hf
    · exact fun hf => .inl hf.2

/-- **Which calls take the process down.** -/
theorem accept_fault_iff : accept k.cls args (Command.start h) = .fault ↔ k.Fatal args := by
  unfold accept Kind.Fatal
  rw [bind_eq_fault, options_fault_iff]
  apply or_congr_right
  constructor
  · rintro ⟨hd, s, hi, hf⟩
    obtain ⟨hkeys, _, _, hl⟩ := initialize_done hi
    have hh := initialize_header hi
    rcases bind_eq_fault.mp hf with hf | ⟨_, _, _, hf⟩
    · have hfirst := (keys_fault_iff hh hl).mp hf
      rw [hkeys] at hfirst
      exact ⟨hd, hh, hfirst⟩
    · cases hf
  · rintro ⟨hd, hh, hfirst⟩
    -- there is a key, so `initialize` gets that far
    have hpos : 0 < k.cls.listSize hd.keys := by
      rcases listSize_cases k with hs | hs
      · obtain ⟨pre, x, post, he, _⟩ := hfirst
        rw [hs, header_keys hh, ← items_ne_nil, he]
        simp
      · rw [hs]
        exact Nat.zero_lt_one
    obtain ⟨s, hs⟩ := header_initialize hh hpos h
    obtain ⟨hkeys, _, _, hl⟩ := initialize_done hs
    refine ⟨hd, s, hs, bind_eq_fault.mpr (.inl ((keys_fault_iff hh hl).mpr ?_))⟩
    rw [hkeys]
    exact hfirst

end Call

/-! ## The connection -/

section Connection

open Impl

variable {s : Impl} {k : Kind} {args : List Value}

/-- An error is reported, to the callback or as an exception with a text. -/
theorem bailOut_reports {ex : CBExc} (hset : ex.isSet = true)
    (hmsg : (lastArg args).isFunction = false → ex.message ≠ "") :
    ∃ r, bailOut args ex = some r := by
  unfold bailOut
  simp only
  split
  · cases hf : (lastArg args).isFunction with
    | true =>
      have hargs : args = [] := by simp_all
      rw [hargs] at hf
      cases hf
    | false => simp [CBExc.eArguments, hset, CBExc.throwV8, hmsg hf]
  · exact ⟨_, rfl⟩

/-- A request is stopped by nothing but a crash. -/
theorem makeOperation_fault (err : Int) (hjs : s.jsRuns = true) :
    s.makeOperation k args err = none ↔ k.Fatal args := by
  rw [← accept_fault_iff (h := s.heap)]
  unfold Impl.makeOperation
  cases hacc : accept k.cls args (Command.start s.heap) with
  | fault => exact iff_of_true rfl rfl
  | refused st =>
    obtain ⟨herr, hne, hmsg⟩ := accept_refused hacc
    have hset : st.err.isSet = true := by
      rw [herr]
      exact firstError_isSet hne
    obtain ⟨r, hr⟩ := bailOut_reports hset hmsg
    apply iff_of_false _ nofun
    simp only [hr]
    exact nofun
  | done hd st =>
    obtain ⟨s₁, hs, _⟩ := submit_moves err hjs hacc
    apply iff_of_false _ nofun
    simp only [hs]
    exact nofun

/-- **A sound queue can be worked off**: native code that was suspended goes on. -/
theorem drain_advances (hs : Sound s) (err : Int) (hnative : s.jsRuns = false) :
    ∃ s', s.drain err = some s' := by
  unfold Impl.jsRuns at hnative
  unfold Impl.drain
  cases hc : s.control with
  | nil =>
    rw [hc] at hnative
    cases hnative
  | cons f rest =>
    rw [hc] at hnative
    cases f with
    | user => cases hnative
    | popFront g => exact ⟨_, rfl⟩
    | drain g =>
      simp only
      unfold Impl.drainStep
      cases hp : s.pendingCommands with
      | nil => exact ⟨_, rfl⟩
      | cons p ps =>
        have hmem : p ∈ s.pendingCommands := by
          rw [hp]
          exact List.mem_cons_self
        obtain ⟨reqs, hready, hhttp⟩ := hs.ready p hmem
        obtain ⟨cookie, hck⟩ := Option.isSome_iff_exists.mp (hs.cookie p hmem)
        have hfront : ∃ r, s.runFront g err p = some r := by
          unfold Impl.runFront
          by_cases hg : g = LCB_SUCCESS
          · rw [if_pos hg, execute_ready hready hhttp]
            exact ⟨_, rfl⟩
          · rw [if_neg hg]
            exact ⟨_, rfl⟩
        obtain ⟨⟨evs, e⟩, hr⟩ := hfront
        simp only [hr, Option.bind_eq_bind, Option.bind_some, hck]
        by_cases he : e = LCB_SUCCESS
        · rw [if_pos he]
          exact ⟨_, rfl⟩
        · rw [if_neg he]
          exact ⟨_, rfl⟩

/-- Whose turn it is: application code makes requests and returns, the event loop delivers
    events, and native code that was suspended goes on. -/
def Due (s : Impl) : Action → Prop
  | .makeOperation _ _ _ | .shutdown => s.jsRuns = true
  | .onConfig _ => s.jsRuns = true ∧ s.alive = true ∧ s.configCallback = true
  | .errorCallback _ => s.jsRuns = true ∧ s.alive = true
  | .shutdownCb => s.control = [] ∧ s.idle = .armed
  | .drain _ => s.jsRuns = false
  | .ret => ∃ rest, s.control = .user :: rest

/-- **Every step whose turn it is goes through, a fatal request excepted**, in every reachable
    state. -/
theorem advances_unless_fatal {as : List Action} (h : Impl.run as = some s) {a : Action}
    (hdue : Due s a) :
    Impl.step a s = none ↔
      ∃ k args err, a = .makeOperation k args err ∧ k.Fatal args := by
  have hgoes {s' : Impl} (hs : Impl.step a s = some s')
      (hne : ∀ k args err, a ≠ .makeOperation k args err) : Impl.step a s = none ↔
        ∃ k args err, a = .makeOperation k args err ∧ k.Fatal args := by
    rw [hs]
    apply iff_of_false nofun
    rintro ⟨k, args, err, he, _⟩
    exact hne k args err he
  cases a with
  | makeOperation k args err =>
    have hjs : s.jsRuns = true := hdue
    unfold Impl.step
    simp only [if_pos hjs]
    rw [makeOperation_fault err hjs]
    constructor
    · intro hf
      exact ⟨k, args, err, rfl, hf⟩
    · rintro ⟨_, _, _, he, hf⟩
      cases he
      exact hf
  | shutdown => exact hgoes (if_pos hdue) nofun
  | onConfig isNew =>
    obtain ⟨hjs, halive, hcb⟩ := hdue
    exact hgoes (if_pos (by rw [hjs, halive, hcb]; rfl)) nofun
  | errorCallback err =>
    obtain ⟨hjs, halive⟩ := hdue
    exact hgoes (if_pos (by rw [hjs, halive]; rfl)) nofun
  | shutdownCb => exact hgoes (if_pos (by simp [hdue.1, hdue.2])) nofun
  | drain err =>
    obtain ⟨s', hs⟩ := drain_advances (run_sound h) err hdue
    exact hgoes hs nofun
  | ret =>
    obtain ⟨rest, hc⟩ := hdue
    have hs : Impl.step .ret s = some { s with control := rest } := by
      unfold Impl.step
      rw [hc]
    exact hgoes hs nofun

end Connection

end Proof

section Example

open scoped SmallRuntime

/-- A lock to be given up, with a `Buffer` of two bytes for a CAS. -/
def shortUnlock : List Value :=
  [.object [("k", .object [("cas", .buffer [1, 2])])], .object [], .function 1]

/-- The two bytes are read as eight. -/
theorem Proof.advances_unless_fatal_unlock :
    Impl.step (.makeOperation .unlock shortUnlock 0) {} = none ∧ Kind.unlock.Fatal shortUnlock := by
  have hstep : Impl.step (.makeOperation .unlock shortUnlock 0) {} = none :=
    Option.isNone_iff_eq_none.mp (by decide +kernel)
  have hrun : Impl.run [] = some {} := rfl
  have hdue : Proof.Due {} (.makeOperation .unlock shortUnlock 0) := rfl
  obtain ⟨k, args, err, he, hfatal⟩ := (Proof.advances_unless_fatal hrun hdue).mp hstep
  cases he
  exact ⟨hstep, hfatal⟩

end Example

end Couchnode
