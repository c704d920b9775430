import Couchnode.Spec.Requests

/-!
# An options object, slot by slot

`parseAll` goes through the slots of a record one after the other and stops at the first that is
wrong. What it finds for a name is `optionOf`, and nothing else of the options object matters to
it (`parseAll_eq`); so a parse that finishes has read every slot on its own (`get_parsed`,
`store_parsed`), and two objects that agree on the names of the slots parse alike
(`parseWith_congr`).

A number that is not found is 0, and one that is found is not negative (`Settled`).
-/

set_option autoImplicit false

namespace Couchnode

namespace Proof

open ParamSlot

variable [Runtime] {O α : Type}

/-! ## What is found for a name -/

/-- The value a parse finds for a name. -/
def optionOf (dict : Option Value) (name : String) : Option Value :=
  match dict with
  | some d => if d.isObject && !d.propertyNames.isEmpty then d.getRealNamedProperty name else none
  | none => none

/-- It may be parsed for options: a value that is no object has to be falsy. -/
def OptionsObject (dict : Option Value) : Prop :=
  ∀ d, dict = some d → d.isObject = false → d.truthy = false

/-- The loop of `parseAll`, over what is found. -/
def parseWith (look : String → Option Value) : List (ParamSlot O) → O → Parsed O
  | [], o => .ok o
  | cur :: specs, o =>
    match look cur.name with
    | none => parseWith look specs o
    | some val =>
      match cur.parseValue val o with
      | .ok o' => parseWith look specs o'
      | .bad o' c => .bad o' c
      | .fault => .fault

section Look

variable {dict : Option Value} {look look' : String → Option Value} {specs : List (ParamSlot O)}
  {o o' : O}

theorem parseSpecs_eq (d : Value) (specs : List (ParamSlot O)) (o : O) :
    parseSpecs d specs o = parseWith d.getRealNamedProperty specs o := by
  induction specs generalizing o with
  | nil => rfl
  | cons cur specs ih =>
    unfold parseSpecs parseWith
    cases d.getRealNamedProperty cur.name with
    | none => exact ih o
    | some val =>
      simp only
      cases cur.parseValue val o with
      | ok o' => exact ih o'
      | bad o' c => rfl
      | fault => rfl

omit [Runtime] in
theorem parseWith_congr (h : ∀ sp ∈ specs, look sp.name = look' sp.name) (o : O) :
    parseWith look specs o = parseWith look' specs o := by
  induction specs generalizing o with
  | nil => rfl
  | cons cur specs ih =>
    have ih := ih fun sp hsp => h sp (List.mem_cons_of_mem _ hsp)
    unfold parseWith
    rw [h cur List.mem_cons_self]
    cases look' cur.name with
    | none => exact ih o
    | some val =>
      simp only
      cases cur.parseValue val o with
      | ok o' => exact ih o'
      | bad o' c => rfl
      | fault => rfl

omit [Runtime] in
/-- Where nothing is found, nothing changes. -/
theorem parseWith_none (specs : List (ParamSlot O)) (o : O) :
    parseWith (fun _ => none) specs o = .ok o := by
  induction specs with
  | nil => rfl
  | cons cur specs ih => exact ih

/-- **A parse depends on what is found for the names of the slots.** -/
theorem parseAll_eq (h : OptionsObject dict) (specs : List (ParamSlot O)) (o : O) :
    parseAll dict specs o = parseWith (optionOf dict) specs o := by
  have hnone (h : optionOf dict = fun _ => none) :
      parseWith (optionOf dict) specs o = .ok o := by
    rw [h]
    exact parseWith_none specs o
  cases dict with
  | none => exact (hnone rfl).symm
  | some d =>
    cases hobj : d.isObject with
    | false =>
      have hempty : optionOf (some d) = fun _ => none := by
        funext name
        simp [optionOf, hobj]
      rw [hnone hempty]
      simp [parseAll, hobj, h d rfl hobj]
    | true =>
      cases hnames : d.propertyNames.isEmpty with
      | true =>
        have hempty : optionOf (some d) = fun _ => none := by
          funext name
          simp [optionOf, hnames]
        rw [hnone hempty]
        simp [parseAll, hobj, hnames]
      | false =>
        have hlook : optionOf (some d) = d.getRealNamedProperty := by
          funext name
          simp [optionOf, hobj, hnames]
        have hparse : parseAll (some d) specs o = parseSpecs d specs o := by
          simp [parseAll, hobj, hnames]
        rw [hparse, hlook]
        exact parseSpecs_eq d specs o

/-- Only an options object is parsed. -/
theorem optionsObject_of_ok (h : parseAll dict specs o = .ok o') : OptionsObject dict := by
  rintro d rfl hobj
  cases htruthy : d.truthy with
  | false => rfl
  | true => simp [parseAll, hobj, htruthy] at h

end Look

/-! ## One slot -/

/-- A slot after a parse. -/
def readSlot (parse : Value → Slot α → Parsed (Slot α)) (found : Option Value) (s : Slot α) :
    Parsed (Slot α) :=
  match found with
  | none => .ok s
  | some v => parse v s

omit [Runtime] in
theorem parseWith_field {look : String → Option Value} {specs : List (ParamSlot O)} {o o' : O}
    {name : String} {get : O → Slot α} {set : O → Slot α → O}
    {parse : Value → Slot α → Parsed (Slot α)} (hset : set o (get o) = o) :
    parseWith look (field name get set parse :: specs) o = .ok o' ↔
      ∃ s, readSlot parse (look name) (get o) = .ok s ∧ parseWith look specs (set o s) = .ok o' := by
  rw [parseWith]
  show (match look name with
    | none => parseWith look specs o
    | some val =>
      match (field name get set parse).parseValue val o with
      | .ok o' => parseWith look specs o'
      | .bad o' c => .bad o' c
      | .fault => .fault) = _ ↔ _
  unfold readSlot
  cases look name with
  | none =>
    constructor
    · intro h
      exact ⟨get o, rfl, by rw [hset]; exact h⟩
    · rintro ⟨s, hs, h⟩
      cases hs
      rw [hset] at h
      exact h
  | some v =>
    simp only [field]
    cases hp : parse v (get o) with
    | ok s =>
      constructor
      · intro h
        exact ⟨s, rfl, h⟩
      · rintro ⟨s', hs, h⟩
        cases hs
        exact h
    | bad s c =>
      constructor
      · intro h
        cases h
      · rintro ⟨s', hs, _⟩
        cases hs
    | fault =>
      constructor
      · intro h
        cases h
      · rintro ⟨s', hs, _⟩
        cases hs

/-! ## The records -/

section Records

variable {dict : Option Value}

theorem get_parsed {o : GetOptions} (h : parseAll dict GetOptions.specs {} = .ok o) :
    readSlot uint32 (optionOf dict NameMap.expiry) { v := 0 } = .ok o.expTime ∧
      readSlot uint32 (optionOf dict NameMap.locktime) { v := 0 } = .ok o.lockTime ∧
      readSlot V8ValueOption.parseValue (optionOf dict NameMap.fmtType) { v := none } =
        .ok o.format := by
  rw [parseAll_eq (optionsObject_of_ok h)] at h
  obtain ⟨exp, hexp, h⟩ := (parseWith_field rfl).mp h
  obtain ⟨lock, hlock, h⟩ := (parseWith_field rfl).mp h
  obtain ⟨format, hformat, h⟩ := (parseWith_field rfl).mp h
  cases h
  exact ⟨hexp, hlock, hformat⟩

theorem store_parsed {o : StoreOptions} (h : parseAll dict StoreOptions.specs {} = .ok o) :
    readSlot CasSlot.parseValue (optionOf dict NameMap.cas) { v := 0 } = .ok o.cas ∧
      readSlot uint32 (optionOf dict NameMap.expiry) { v := 0 } = .ok o.exp ∧
      readSlot V8ValueOption.parseValue (optionOf dict NameMap.fmtType) { v := none } =
        .ok o.format ∧
      readSlot V8ValueOption.parseValue (optionOf dict NameMap.value) { v := none } =
        .ok o.value ∧
      readSlot uint32 (optionOf dict NameMap.flags) { v := 0 } = .ok o.flags := by
  rw [parseAll_eq (optionsObject_of_ok h)] at h
  obtain ⟨cas, hcas, h⟩ := (parseWith_field rfl).mp h
  obtain ⟨exp, hexp, h⟩ := (parseWith_field rfl).mp h
  obtain ⟨format, hformat, h⟩ := (parseWith_field rfl).mp h
  obtain ⟨value, hvalue, h⟩ := (parseWith_field rfl).mp h
  obtain ⟨flags, hflags, h⟩ := (parseWith_field rfl).mp h
  cases h
  exact ⟨hcas, hexp, hformat, hvalue, hflags⟩

theorem arithmetic_parsed {o : ArithmeticOptions}
    (h : parseAll dict ArithmeticOptions.specs {} = .ok o) :
    readSlot uint32 (optionOf dict NameMap.expiry) { v := 0 } = .ok o.exp ∧
      readSlot (NumericSlot.parseValue .uint64) (optionOf dict NameMap.initial) { v := 0 } =
        .ok o.initial ∧
      readSlot (NumericSlot.parseValue .int64) (optionOf dict NameMap.arithOffset) { v := 0 } =
        .ok o.delta := by
  rw [parseAll_eq (optionsObject_of_ok h)] at h
  obtain ⟨exp, hexp, h⟩ := (parseWith_field rfl).mp h
  obtain ⟨initial, hinitial, h⟩ := (parseWith_field rfl).mp h
  obtain ⟨delta, hdelta, h⟩ := (parseWith_field rfl).mp h
  cases h
  exact ⟨hexp, hinitial, hdelta⟩

theorem touch_parsed {o : TouchOptions} (h : parseAll dict TouchOptions.specs {} = .ok o) :
    readSlot uint32 (optionOf dict NameMap.expiry) { v := 0 } = .ok o.exp := by
  rw [parseAll_eq (optionsObject_of_ok h)] at h
  obtain ⟨exp, hexp, h⟩ := (parseWith_field rfl).mp h
  cases h
  exact hexp

theorem durability_parsed {o : DurabilityOptions}
    (h : parseAll dict DurabilityOptions.specs {} = .ok o) :
    readSlot int32 (optionOf dict NameMap.persistTo) { v := 0 } = .ok o.persistTo ∧
      readSlot int32 (optionOf dict NameMap.replicateTo) { v := 0 } = .ok o.replicateTo := by
  rw [parseAll_eq (optionsObject_of_ok h)] at h
  obtain ⟨persistTo, hpersist, h⟩ := (parseWith_field rfl).mp h
  obtain ⟨replicateTo, hreplicate, h⟩ := (parseWith_field rfl).mp h
  obtain ⟨isDelete, _, h⟩ := (parseWith_field rfl).mp h
  obtain ⟨timeout, _, h⟩ := (parseWith_field rfl).mp h
  cases h
  exact ⟨hpersist, hreplicate⟩

end Records

/-! ## Numbers -/

/-- A number slot after it was read: not negative, and 0 unless found. -/
structure Settled (s : Slot Int) : Prop where
  nonneg : 0 ≤ s.v
  zero : s.isFound = false → s.v = 0

omit [Runtime] in
theorem settled_of_read {found : Option Value} {s : Slot Int}
    (h : readSlot uint32 found { v := 0 } = .ok s) : Settled s := by
  cases found with
  | none =>
    cases h
    exact ⟨Int.le_refl 0, fun _ => rfl⟩
  | some v =>
    change NumericSlot.parseValue .uint32 v { v := 0 } = .ok s at h
    unfold NumericSlot.parseValue at h
    by_cases hfalse : maybeSetFalse v
    · rw [if_pos hfalse] at h
      cases h
      exact ⟨Int.le_refl 0, fun _ => rfl⟩
    rw [if_neg hfalse] at h
    cases v with
    | number n =>
      simp only at h
      split at h
      · cases h
      · cases h
        refine ⟨Int.emod_nonneg _ (by decide), fun hn => ?_⟩
        cases hn
    | _ => cases h

omit [Runtime] in
theorem cas_of_read {found : Option Value} {s : Slot Nat}
    (h : readSlot CasSlot.parseValue found { v := 0 } = .ok s) (hn : s.isFound = false) :
    s.v = 0 := by
  cases found with
  | none =>
    cases h
    rfl
  | some v =>
    simp only [readSlot, CasSlot.parseValue] at h
    by_cases hfalse : maybeSetFalse v
    · rw [if_pos hfalse] at h
      cases h
      rfl
    rw [if_neg hfalse] at h
    cases hcas : Cas.getCas v with
    | cas c =>
      rw [hcas] at h
      cases h
      cases hn
    | notCas | overread =>
      rw [hcas] at h
      cases h

omit [Runtime] in
/-- A slot that takes any value is found exactly when there is one. -/
theorem value_of_read {found : Option Value} {s : Slot (Option Value)}
    (h : readSlot V8ValueOption.parseValue found { v := none } = .ok s) :
    s.isFound = found.isSome ∧ s.v = found := by
  cases found with
  | none =>
    cases h
    exact ⟨rfl, rfl⟩
  | some v =>
    cases h
    exact ⟨rfl, rfl⟩

end Proof

end Couchnode
