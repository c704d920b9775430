import Couchnode.Native.Control
import Couchnode.Proof.Precedence

/-!
# Numbers an application gives

A numeric option is cast to the type of its slot and back, and taken if it is the same again. For
the narrow types that is a test of the range; a 64-bit type casts back to the same number always,
so a negative number is taken as an unsigned one 2 ^ 64 above it (`exact_iff`). Whether the number
of a command is the one the caller gave also takes that it is looked at, and that V8 reads the
integer it is: `Fits` says when (`numbers_exact_iff`).

A timeout is a number of milliseconds, kept as 32 bits of microseconds. It is read as it was set
exactly when it fits (`timeout_kept_iff`).
-/

set_option autoImplicit false

namespace Couchnode

namespace Proof

/-! ## The integer types -/

/-- The integers of a type. -/
def InRange : IntType → Int → Prop
  | .int32, t => -2 ^ 31 ≤ t ∧ t < 2 ^ 31
  | .uint32, t => 0 ≤ t ∧ t < 2 ^ 32
  | .int64, t => -2 ^ 63 ≤ t ∧ t < 2 ^ 63
  | .uint64, t => 0 ≤ t ∧ t < 2 ^ 64

/-- `IntegerValue` is a 64-bit integer. -/
theorem integerValue_range (n : Num) : InRange .int64 n.integerValue := by
  unfold InRange
  cases n with
  | fin q =>
    simp only [Num.integerValue]
    split
    · next h => exact h
    · exact ⟨Int.le_refl _, by decide⟩
  | nan | inf negative =>
    show -2 ^ 63 ≤ (-2 ^ 63 : Int) ∧ (-2 ^ 63 : Int) < 2 ^ 63
    exact ⟨Int.le_refl _, by decide⟩

theorem cast_range (t : IntType) (i : Int) : InRange t (t.cast i) := by
  cases t with
  | int32 | int64 =>
    simp only [InRange, IntType.cast, Int.bmod]
    split <;> omega
  | uint32 | uint64 =>
    simp only [InRange, IntType.cast]
    omega

/-- An integer of the type is cast to itself. -/
theorem cast_eq_self {t : IntType} {i : Int} (h : InRange t i) : t.cast i = i := by
  cases t with
  | int32 | int64 =>
    simp only [InRange] at h
    simp only [IntType.cast, Int.bmod]
    split <;> omega
  | uint32 | uint64 =>
    simp only [InRange] at h
    simp only [IntType.cast]
    omega

/-- **The test by casting back** is one of the range, for every type but `uint64_t`. -/
theorem toInt64_cast {t : IntType} {i : Int} (h : InRange .int64 i) :
    t.toInt64 (t.cast i) = i ↔ InRange t i ∨ t = .uint64 := by
  have hback (j : Int) (hj : InRange .int64 j) : t.toInt64 j = j := cast_eq_self (t := .int64) hj
  by_cases ht : t = .uint64
  · subst ht
    have hmod : IntType.toInt64 .uint64 (IntType.cast .uint64 i) = IntType.toInt64 .uint64 i := by
      simp only [IntType.toInt64, IntType.cast]
      exact_mod_cast Int.emod_bmod i (2 ^ 64)
    exact iff_of_true (hmod.trans (hback i h)) (.inr rfl)
  · have hcast := cast_range t i
    have hwide : InRange .int64 (t.cast i) := by
      cases t with
      | uint64 => exact absurd rfl ht
      | int32 | uint32 | int64 =>
        simp only [InRange] at hcast ⊢
        omega
    rw [hback _ hwide]
    constructor
    · intro he
      rw [he] at hcast
      exact .inl hcast
    · intro hi
      exact cast_eq_self (hi.resolve_right ht)

/-! ## One option -/

/-- **A number is judged exactly**: found as it is when it is of the type, an overflow
    otherwise. -/
structure Exact (t : IntType) (n : Num) (s : Slot Int) : Prop where
  found : (∃ s', NumericSlot.parseValue t (.number n) s = .ok s' ∧ s'.isFound = true ∧
    s'.v = n.integerValue) ↔ InRange t n.integerValue
  overflow : ¬ InRange t n.integerValue →
    ∃ s', NumericSlot.parseValue t (.number n) s =
      .bad s' (.eArguments "Overflow detected" (some (.number n)))

/-- The cast of a number is kept, when casting it back gives the number. -/
theorem parse_number {t : IntType} {n : Num}
    (h : InRange t n.integerValue ∨ t = .uint64) (s : Slot Int) :
    NumericSlot.parseValue t (.number n) s =
      .ok { v := t.cast n.integerValue, status := .found } := by
  show (if t.toInt64 (t.cast n.integerValue) ≠ n.integerValue then _ else _) = _
  rw [if_neg (not_not.mpr ((toInt64_cast (integerValue_range n)).mpr h))]

theorem parse_overflow {t : IntType} {n : Num}
    (h : ¬ (InRange t n.integerValue ∨ t = .uint64)) (s : Slot Int) :
    NumericSlot.parseValue t (.number n) s =
      .bad { v := t.cast n.integerValue, status := .error }
        (.eArguments "Overflow detected" (some (.number n))) := by
  show (if t.toInt64 (t.cast n.integerValue) ≠ n.integerValue then _ else _) = _
  rw [if_pos (fun he => h ((toInt64_cast (integerValue_range n)).mp he))]

/-- A 64-bit number fits its own unsigned type when it is not negative. -/
theorem uint64_range (n : Num) : InRange .uint64 n.integerValue ↔ 0 ≤ n.integerValue := by
  obtain ⟨_, hhi⟩ := integerValue_range n
  simp only [InRange]
  omega

/-- **When a number is judged exactly**: unless it is negative, and its slot unsigned and as wide
    as the integers of V8. -/
theorem exact_iff (t : IntType) (n : Num) (s : Slot Int) :
    Exact t n s ↔ (t = .uint64 → 0 ≤ n.integerValue) := by
  by_cases hr : InRange t n.integerValue
  · have hsound : t = .uint64 → 0 ≤ n.integerValue := by
      rintro rfl
      exact (uint64_range n).mp hr
    refine iff_of_true ⟨?_, fun hn => absurd hr hn⟩ hsound
    refine iff_of_true ⟨_, parse_number (.inl hr) s, rfl, ?_⟩ hr
    exact cast_eq_self hr
  · by_cases ht : t = .uint64
    · subst ht
      apply iff_of_false
      · intro h
        -- a negative number is taken, and 2 ^ 64 is added to it
        obtain ⟨s', hs⟩ := h.overflow hr
        rw [parse_number (.inr rfl) s] at hs
        cases hs
      · intro h
        exact hr ((uint64_range n).mpr (h rfl))
    · have hover := parse_overflow (s := s) (not_or.mpr ⟨hr, ht⟩)
      refine iff_of_true ⟨?_, fun _ => ⟨_, hover⟩⟩ fun h => absurd h ht
      apply iff_of_false
      · rintro ⟨s', hs, _⟩
        rw [hover] at hs
        cases hs
      · exact hr

/-! ## The numbers of a command -/

section Commands

open Command ParamSlot

variable [Runtime]

/-- The integer an option gives, if it gives one. -/
def intOf : Option Value → Option Int
  | some (.number n) => some n.integerValue
  | _ => none

/-- The number an option gives, if it gives one. -/
def numberOf : Option Value → Option Num
  | some (.number n) => some n
  | _ => none

/-- The number given for a name: in the key's own options, else in those of the call. -/
def given (own glob : Option Value) (name : String) : Option Num :=
  (numberOf (optionOf own name)).or (numberOf (optionOf glob name))

/-- The integer of a number, what it has before its point; one that is not finite has none. -/
def wholePart : Num → Option Int
  | .fin q => some (Num.truncate q)
  | _ => none

/-- The integer is that of the number given, and 0 where none was. -/
def IsGiven (found : Option Num) (i : Int) : Prop :=
  match found with
  | some n => wholePart n = some i
  | none => i = 0

/-- **The numbers of a command are those the caller gave**, by the rule that a key's own option
    wins over that of the call. A get or a lock has the time of its lock, and where none was given
    its expiry; a store has flags of its own choice where none were. -/
def AsGiven (k : Kind) (glob own : Option Value) (nums : LcbNumbers) : Prop :=
  match k with
  | .arithmetic =>
    IsGiven (given own glob NameMap.arithOffset) nums.delta ∧
      IsGiven (given own glob NameMap.initial) nums.initial ∧
      IsGiven (given own glob NameMap.expiry) nums.exptime
  | .store _ =>
    IsGiven (given own glob NameMap.expiry) nums.exptime ∧
      ∀ n, given own glob NameMap.flags = some n → IsGiven (some n) nums.flags
  | .get | .lock =>
    IsGiven ((given own glob NameMap.locktime).or (given own glob NameMap.expiry)) nums.exptime
  | .touch => IsGiven (given own glob NameMap.expiry) nums.exptime
  | _ => True

/-- The durability counts of a call are those given. -/
def CopiesAsGiven (glob : Option Value) : LcbEntry → Prop
  | .durability opts =>
    IsGiven (numberOf (optionOf glob NameMap.persistTo)) opts.persistTo ∧
      IsGiven (numberOf (optionOf glob NameMap.replicateTo)) opts.replicateTo
  | _ => True

/-- The number, if one was given, has an integer between these. -/
def Within (lo hi : Int) (found : Option Num) : Prop :=
  ∀ n, found = some n → ∃ i, wholePart n = some i ∧ lo ≤ i ∧ i ≤ hi

/-- **What the numbers given for a key have to be**, for its command to have them: those of a
    counter in the range of their types, but that `initial` comes up to 2 ^ 63 only; an expiry of
    a get or a lock, and one of the call for a touch of a key that has options, absent or 0 where
    it is not looked at; flags of the call those the encoding chooses. -/
def Fits (k : Kind) (args : List Value) (item : Option Value × Option Value) : Prop :=
  let own := item.2
  let glob := some (arg args 1)
  match k with
  | .arithmetic =>
    Within (-2 ^ 63) (2 ^ 63 - 1) (given own glob NameMap.arithOffset) ∧
      Within 0 (2 ^ 63) (given own glob NameMap.initial)
  | .store _ =>
    numberOf (optionOf own NameMap.flags) = none →
      ∀ n v flags bytes, numberOf (optionOf glob NameMap.flags) = some n →
        optionOf own NameMap.value = some v →
        ValueFormat.encoding v (specOf k args item) = some (flags, bytes) → IsGiven (some n) flags
  | .get | .lock =>
    given own glob NameMap.locktime = none → IsGiven (given own glob NameMap.expiry) 0
  | .touch =>
    own.isSome = true → numberOf (optionOf own NameMap.expiry) = none →
      IsGiven (numberOf (optionOf glob NameMap.expiry)) 0
  | _ => True

/-- What `IntegerValue` makes of the number, and 0 where there is none. -/
def valueOf (found : Option Num) : Int := (found.map Num.integerValue).getD 0

/-! ### Numbers and their integers -/

section Whole

variable {found own glob : Option Num} {i : Int}

omit [Runtime] in
theorem intOf_eq (v : Option Value) : intOf v = (numberOf v).map Num.integerValue := by
  unfold intOf numberOf
  split <;> rfl

omit [Runtime] in
/-- A number with a 64-bit integer is read as that. -/
theorem integerValue_eq {n : Num} (h : wholePart n = some i) (hi : InRange .int64 i) :
    n.integerValue = i := by
  cases n with
  | fin q =>
    obtain rfl := Option.some.inj h
    exact if_pos hi
  | nan | inf negative => cases h

omit [Runtime] in
/-- What is not read as the least integer is read as it is. -/
theorem wholePart_eq {n : Num} (h : n.integerValue ≠ -2 ^ 63) :
    wholePart n = some n.integerValue := by
  cases n with
  | fin q =>
    simp only [Num.integerValue] at h ⊢
    split at h
    · next hq =>
      rw [if_pos hq]
      rfl
    · exact absurd rfl h
  | nan | inf negative => exact absurd rfl h

omit [Runtime] in
/-- Where the integer is one of a narrow type, it is the one given. -/
theorem isGiven_narrow (h : -2 ^ 63 < valueOf found) : IsGiven found i ↔ i = valueOf found := by
  cases found with
  | none => exact Iff.rfl
  | some n =>
    have hn : wholePart n = some n.integerValue := wholePart_eq (Int.ne_of_gt h)
    show wholePart n = some i ↔ i = n.integerValue
    rw [hn, Option.some.injEq]
    exact eq_comm

omit [Runtime] in
theorem narrow_of_range {t : IntType} (h : InRange t (valueOf found)) (ht : t ≠ .int64) :
    -2 ^ 63 < valueOf found := by
  cases t with
  | int64 => exact absurd rfl ht
  | int32 | uint32 | uint64 =>
    simp only [InRange] at h
    omega

omit [Runtime] in
/-- A signed 64-bit slot has the number given, if that is in range. -/
theorem isGiven_int64 :
    IsGiven found (valueOf found) ↔ Within (-2 ^ 63) (2 ^ 63 - 1) found := by
  constructor
  · rintro h n rfl
    obtain ⟨hlo, hhi⟩ := integerValue_range n
    exact ⟨n.integerValue, h, hlo, Int.le_sub_one_of_lt hhi⟩
  · intro h
    cases found with
    | none => rfl
    | some n =>
      obtain ⟨i, hi, hlo, hhi⟩ := h n rfl
      have hv : n.integerValue = i := integerValue_eq hi ⟨hlo, Int.lt_of_le_sub_one hhi⟩
      show wholePart n = some n.integerValue
      rw [hi, hv]

omit [Runtime] in
/-- An unsigned 64-bit slot has it, if that is not negative and not above 2 ^ 63, which is what
    everything too large is taken for. -/
theorem isGiven_uint64 :
    IsGiven found (IntType.cast .uint64 (valueOf found)) ↔ Within 0 (2 ^ 63) found := by
  constructor
  · rintro h n rfl
    obtain ⟨hlo, hhi⟩ := integerValue_range n
    have hn : wholePart n = some (IntType.cast .uint64 n.integerValue) := h
    refine ⟨_, hn, Int.emod_nonneg _ (by decide), ?_⟩
    by_cases hleast : n.integerValue = -2 ^ 63
    · rw [hleast]
      decide
    · -- read as it is, and cast to itself
      have hsame := (wholePart_eq hleast).symm.trans hn
      rw [← Option.some.inj hsame]
      omega
  · intro h
    cases found with
    | none => rfl
    | some n =>
      obtain ⟨i, hi, hlo, hhi⟩ := h n rfl
      show wholePart n = some (IntType.cast .uint64 n.integerValue)
      rw [hi, Option.some.injEq]
      rcases Int.lt_or_eq_of_le hhi with hlt | rfl
      · have hread : InRange .int64 i := ⟨Int.le_trans (by decide) hlo, hlt⟩
        have hfits : InRange .uint64 i := ⟨hlo, Int.lt_trans hlt (by decide)⟩
        rw [integerValue_eq hi hread, cast_eq_self hfits]
      · have hleast : n.integerValue = -2 ^ 63 := by
          by_contra hne
          have hsame := (wholePart_eq hne).symm.trans hi
          have hlt := (integerValue_range n).2
          rw [Option.some.inj hsame] at hlt
          exact absurd hlt (by decide)
        rw [hleast]
        decide

omit [Runtime] in
theorem valueOf_range : InRange .int64 (valueOf found) := by
  cases found with
  | none => exact ⟨by decide, by decide⟩
  | some n => exact integerValue_range n

end Whole

/-- A slot with the number that was found, as its type has it. -/
structure Taken (t : IntType) (found : Option Value) (s : Slot Int) : Prop where
  isFound : s.isFound = (intOf found).isSome
  v : s.v = t.cast ((intOf found).getD 0)
  range : InRange t ((intOf found).getD 0) ∨ t = .uint64

omit [Runtime] in
theorem inRange_zero (t : IntType) : InRange t 0 := by
  cases t <;> exact ⟨by decide, by decide⟩

omit [Runtime] in
/-- A slot that was read has what was found. -/
theorem taken_of_read {t : IntType} {found : Option Value} {s : Slot Int}
    (h : readSlot (NumericSlot.parseValue t) found { v := 0 } = .ok s) : Taken t found s := by
  have hnone (found : Option Value) (s : Slot Int) (hi : intOf found = none)
      (hf : s.isFound = false) (hv : s.v = 0) : Taken t found s := by
    refine ⟨?_, ?_, ?_⟩
    · rw [hi, hf]
      rfl
    · rw [hi, hv]
      exact (cast_eq_self (inRange_zero t)).symm
    · rw [hi]
      exact .inl (inRange_zero t)
  cases found with
  | none =>
    cases h
    exact hnone none _ rfl rfl rfl
  | some value =>
    change NumericSlot.parseValue t value { v := 0 } = .ok s at h
    cases value with
    | number n =>
      by_cases hr : InRange t n.integerValue ∨ t = .uint64
      · rw [parse_number hr] at h
        cases h
        exact ⟨rfl, rfl, hr⟩
      · rw [parse_overflow hr] at h
        cases h
    | _ =>
      unfold NumericSlot.parseValue at h
      split at h
      · cases h
        exact hnone _ _ rfl rfl rfl
      · cases h

section Merged

variable {t : IntType} {own glob : Slot Int} {fo fg : Option Value}

omit [Runtime] in
/-- A narrow slot has the number itself. -/
theorem Taken.exact (ho : Taken t fo own) (ht : t ≠ .uint64) : own.v = (intOf fo).getD 0 := by
  rw [ho.v]
  exact cast_eq_self (ho.range.resolve_right ht)

omit [Runtime] in
/-- A slot with the number given. -/
theorem Taken.value (h : Taken t fo own) : own.v = t.cast (valueOf (numberOf fo)) := by
  have hv := h.v
  rwa [intOf_eq] at hv

omit [Runtime] in
theorem Taken.value_range (h : Taken t fo own) (ht : t ≠ .uint64) :
    InRange t (valueOf (numberOf fo)) := by
  have hrange := h.range.resolve_right ht
  rwa [intOf_eq] at hrange

omit [Runtime] in
/-- An own slot over one of the call has the number given. -/
theorem Taken.over (ho : Taken t fo own) (hg : Taken t fg glob) :
    (if own.isFound then own else glob).v = t.cast (valueOf ((numberOf fo).or (numberOf fg))) := by
  have hfound : own.isFound = (numberOf fo).isSome := by
    rw [ho.isFound, intOf_eq, Option.isSome_map]
  have hown := ho.value
  rw [hfound]
  cases hn : numberOf fo with
  | none => exact hg.value
  | some n =>
    rw [hn] at hown
    exact hown

omit [Runtime] in
theorem Taken.over_range (ho : Taken t fo own) (hg : Taken t fg glob) (ht : t ≠ .uint64) :
    InRange t (valueOf ((numberOf fo).or (numberOf fg))) := by
  have hown := ho.value_range ht
  cases hn : numberOf fo with
  | none => exact hg.value_range ht
  | some n =>
    rw [hn] at hown
    exact hown

omit [Runtime] in
theorem toNat_exact {i j : Int} (hj : InRange .uint32 j) (h : i = IntType.cast .uint32 j) :
    (i.toNat : Int) = j := by
  rw [h, cast_eq_self hj]
  exact Int.toNat_of_nonneg hj.1

omit [Runtime] in
/-- **A 32-bit slot sends the number given.** -/
theorem Taken.sends (h : Taken .uint32 fo own) : IsGiven (numberOf fo) (own.v.toNat : Nat) := by
  have hrange := h.value_range nofun
  exact (isGiven_narrow (narrow_of_range hrange nofun)).mpr (toNat_exact hrange h.value)

omit [Runtime] in
/-- So does a signed one. -/
theorem Taken.sends_signed (h : Taken .int32 fo own) : IsGiven (numberOf fo) own.v := by
  have hrange := h.value_range nofun
  exact (isGiven_narrow (narrow_of_range hrange nofun)).mpr (h.value.trans (cast_eq_self hrange))

omit [Runtime] in
/-- So does one over that of the call. -/
theorem Taken.over_sends (ho : Taken .uint32 fo own) (hg : Taken .uint32 fg glob) :
    IsGiven ((numberOf fo).or (numberOf fg))
      ((if own.isFound then own else glob).v.toNat : Nat) := by
  have hrange := ho.over_range hg nofun
  exact (isGiven_narrow (narrow_of_range hrange nofun)).mpr (toNat_exact hrange (ho.over hg))

end Merged

/-! ### One key, class by class -/

section Item

variable {k : Kind} {args : List Value} {item : Option Value × Option Value} {req : LcbReq}

/-- What a key asks for is made by its class. -/
theorem request_of_item {O : Type} {cls : CommandClass O} {request : Requester O} {hd : Header O}
    (hreq : itemRequest cls request hd item = some req) :
    ∃ key hashkey, request hd.globalOptions key hashkey item.2 = some req := by
  unfold itemRequest at hreq
  simp only [Option.bind_eq_bind, Option.bind_eq_some_iff] at hreq
  obtain ⟨hashkey, _, key, _, hreq⟩ := hreq
  exact ⟨some key, hashkey, hreq⟩

/-- The options of a call were read from its second argument. -/
theorem call_parsed {O : Type} {cls : CommandClass O} {specs : List (ParamSlot O)}
    (hp : cls.params = some specs) {hd : Header O} (hh : header cls args = some hd) :
    ∃ o, parseAll (some (arg args 1)) specs cls.defaults = .ok o ∧
      hd.globalOptions = cls.afterInit o := by
  obtain ⟨o, ho, hglob⟩ := header_options hh
  unfold callOptions at ho
  rw [hp] at ho
  exact ⟨o, toOption_ok ho, hglob⟩

/-- A get reads its lock time from the options of a key that are an object. -/
theorem get_own_taken {params : Option Value} {glob o : GetOptions}
    (h : GetCommand.options glob params = some o) :
    Taken .uint32 (optionOf params NameMap.locktime) (GetCommand.own params).lockTime := by
  unfold GetCommand.options at h
  unfold GetCommand.own
  cases params with
  | none => exact taken_of_read rfl
  | some p =>
    by_cases hp : p.isObject
    · simp only [if_pos hp] at h ⊢
      obtain ⟨own, hown, _⟩ := Option.map_eq_some_iff.mp h
      rw [hown]
      exact taken_of_read (get_parsed (toOption_ok hown)).2.1
    · simp only [if_neg hp]
      have hnone : optionOf (some p) NameMap.locktime = none := by
        simp [optionOf, hp]
      rw [hnone]
      exact taken_of_read rfl

/-- The time of a get or a lock is the lock time, and there is none where that was not given. -/
theorem get_counts (cls : CommandClass GetOptions) (hp : cls.params = some GetOptions.specs)
    (hdef : cls.defaults = {}) (hv : ∀ o, (cls.afterInit o).lockTime.v = o.lockTime.v)
    {hd : Header GetOptions} (hh : header cls args = some hd)
    (hreq : itemRequest cls GetCommand.request hd item = some req) :
    IsGiven (given item.2 (some (arg args 1)) NameMap.locktime) req.nums.exptime := by
  obtain ⟨glob, hglob, hafter⟩ := call_parsed hp hh
  rw [hdef] at hglob
  obtain ⟨key, hashkey, hreq⟩ := request_of_item hreq
  obtain ⟨o, ho, rfl⟩ := Option.map_eq_some_iff.mp hreq
  have hown := get_own_taken ho
  have hcall := taken_of_read (get_parsed hglob).2.1
  obtain ⟨rfl, _⟩ := get_options ho
  have hsame : ((GetCommand.own item.2).merge hd.globalOptions).lockTime.v =
      (if (GetCommand.own item.2).lockTime.isFound then (GetCommand.own item.2).lockTime
        else glob.lockTime).v := by
    rw [hafter]
    show (if _ then _ else _ : Slot Int).v = _
    rw [apply_ite Slot.v, apply_ite Slot.v, hv]
  show IsGiven _ (((GetCommand.own item.2).merge hd.globalOptions).lockTime.v.toNat : Nat)
  rw [hsame]
  exact hown.over_sends hcall

omit [Runtime] in
/-- A time that is the lock time is the one documented, unless there is an expiry instead. -/
theorem isGiven_time {lock expiry : Option Num} {e : Int} (h : IsGiven lock e) :
    IsGiven (lock.or expiry) e ↔ (lock = none → IsGiven expiry 0) := by
  cases lock with
  | some n => exact iff_of_true h nofun
  | none =>
    obtain rfl : e = 0 := h
    exact ⟨fun he _ => he, fun he => he rfl⟩

omit [Runtime] in
/-- Flags that are the key's own, else others, are those given, unless the call gave some and these
    are not the others. -/
theorem isGiven_flags {own glob : Option Num} {sent chosen : Nat} (h : IsGiven own sent) :
    (∀ n, own.or glob = some n →
        IsGiven (some n) ((if own.isSome then sent else chosen : Nat) : Int)) ↔
      (own = none → ∀ n, glob = some n → IsGiven (some n) chosen) := by
  cases own with
  | some m =>
    refine iff_of_true (fun n hn => ?_) nofun
    obtain rfl := Option.some.inj hn
    exact h
  | none => exact ⟨fun hg _ => hg, fun hg => hg rfl⟩

/-- The flags of a store are the key's own, else those its encoding chose. -/
theorem store_counts {op : StorageOp} {hd : Header StoreOptions}
    (hh : header (StoreCommand op) args = some hd)
    (hreq : itemRequest (StoreCommand op) (StoreCommand.request op) hd item = some req) :
    AsGiven (.store op) (some (arg args 1)) item.2 req.nums ↔ Fits (.store op) args item := by
  obtain ⟨glob, hglob, hafter⟩ := call_parsed rfl hh
  obtain ⟨hglobals, hset⟩ := store_globals hh
  obtain ⟨key, hashkey, hreq⟩ := request_of_item hreq
  unfold StoreCommand.request at hreq
  simp only [Option.bind_eq_bind, Option.bind_eq_some_iff] at hreq
  obtain ⟨p, hparams, own, hown, spec, hspec, v, hv, ⟨flags, bytes⟩, henc, hreq⟩ := hreq
  cases hreq
  obtain ⟨_, hexp, _, hvalue, hflags⟩ := store_parsed (toOption_ok hown)
  obtain ⟨_, hexp', _, _, _⟩ := store_parsed hglob
  have hexp := taken_of_read hexp
  have hflags := taken_of_read hflags
  have hcall := taken_of_read hexp'
  rw [← hparams] at hexp hflags hvalue
  rw [(value_of_read hvalue).2] at hv
  have hspecOf : specOf (.store op) args item = spec := by
    have hown' : StoreCommand.own item.2 = own := by
      unfold StoreCommand.own
      rw [hparams, hown]
      rfl
    show StoreCommand.documentedSpec _ (StoreCommand.own item.2) = spec
    rw [hown']
    rw [hglobals] at hspec
    exact documentedSpec_of_format hset hspec
  have htime : IsGiven (given item.2 (some (arg args 1)) NameMap.expiry)
      ((if own.exp.isFound then own.exp.v.toNat else hd.globalOptions.exp.v.toNat : Nat) :
        Int) := by
    have hsends := hexp.over_sends hcall
    rw [apply_ite Slot.v, apply_ite Int.toNat] at hsends
    rw [hafter]
    exact hsends
  refine (and_iff_right htime).trans ?_
  show (∀ n, given item.2 (some (arg args 1)) NameMap.flags = some n →
    IsGiven (some n) ((if own.flags.isFound then own.flags.v.toNat else flags : Nat) : Int)) ↔ _
  have hfound : own.flags.isFound = (numberOf (optionOf item.2 NameMap.flags)).isSome := by
    rw [hflags.isFound, intOf_eq, Option.isSome_map]
  rw [hfound]
  refine (isGiven_flags hflags.sends).trans ?_
  unfold Fits
  dsimp only
  rw [hspecOf]
  -- the value and its encoding are those the request was made with
  constructor
  · intro h hnone n v' flags' bytes' hglobn hv' henc'
    obtain rfl := Option.some.inj (hv.symm.trans hv')
    rw [henc] at henc'
    obtain ⟨rfl, _⟩ := Prod.mk.inj (Option.some.inj henc')
    exact h hnone n hglobn
  · intro h hnone n hglobn
    exact h hnone n v flags bytes hglobn hv henc

/-- The expiry of a touch is the key's own, if the key has options, else that of the call. -/
theorem touch_counts {hd : Header TouchOptions} (hh : header TouchCommand args = some hd)
    (hreq : itemRequest TouchCommand TouchCommand.request hd item = some req) :
    AsGiven .touch (some (arg args 1)) item.2 req.nums ↔ Fits .touch args item := by
  obtain ⟨glob, hglob, hafter⟩ := call_parsed rfl hh
  obtain ⟨key, hashkey, hreq⟩ := request_of_item hreq
  obtain ⟨own, hown, rfl⟩ := Option.map_eq_some_iff.mp hreq
  have hown := (taken_of_read (touch_parsed (toOption_ok hown))).sends
  have hcall := (taken_of_read (touch_parsed hglob)).sends
  show IsGiven (given item.2 (some (arg args 1)) NameMap.expiry)
    ((if item.2.isSome then own else { exp := hd.globalOptions.exp }).exp.v.toNat : Nat) ↔ _
  unfold Fits given
  dsimp only
  cases hp : item.2 with
  | none =>
    refine iff_of_true ?_ nofun
    show IsGiven (numberOf (optionOf (some (arg args 1)) NameMap.expiry))
      (hd.globalOptions.exp.v.toNat : Nat)
    rw [hafter]
    exact hcall
  | some p =>
    show IsGiven _ (own.exp.v.toNat : Nat) ↔ _
    rw [hp] at hown
    cases hn : numberOf (optionOf (some p) NameMap.expiry) with
    | some n =>
      rw [hn] at hown
      exact iff_of_true hown nofun
    | none =>
      rw [hn] at hown
      have hzero : ((own.exp.v.toNat : Nat) : Int) = 0 := hown
      rw [hzero]
      exact ⟨fun h _ _ => h, fun h => h rfl rfl⟩

/-- A counter has what was given, as far as its 64-bit numbers can have it. -/
theorem arithmetic_counts {hd : Header ArithmeticOptions}
    (hh : header ArithmeticCommand args = some hd)
    (hreq : itemRequest ArithmeticCommand ArithmeticCommand.request hd item = some req) :
    AsGiven .arithmetic (some (arg args 1)) item.2 req.nums ↔ Fits .arithmetic args item := by
  obtain ⟨glob, hglob, hafter⟩ := call_parsed rfl hh
  obtain ⟨key, hashkey, hreq⟩ := request_of_item hreq
  obtain ⟨own, hown, rfl⟩ := Option.map_eq_some_iff.mp hreq
  obtain ⟨hexp, hinitial, hdelta⟩ := arithmetic_parsed (toOption_ok hown)
  obtain ⟨hexp', hinitial', hdelta'⟩ := arithmetic_parsed hglob
  have hglob : hd.globalOptions = glob := hafter
  rw [hglob]
  have htime : IsGiven (given item.2 (some (arg args 1)) NameMap.expiry)
      ((own.merge glob).exp.v.toNat : Nat) := (taken_of_read hexp).over_sends (taken_of_read hexp')
  have hoffset : (own.merge glob).delta.v =
      valueOf (given item.2 (some (arg args 1)) NameMap.arithOffset) := by
    have hv : (own.merge glob).delta.v = _ := (taken_of_read hdelta).over (taken_of_read hdelta')
    exact hv.trans (cast_eq_self valueOf_range)
  have hfirst : (((own.merge glob).initial.v.toNat : Nat) : Int) = IntType.cast .uint64
      (valueOf (given item.2 (some (arg args 1)) NameMap.initial)) := by
    have hv : (own.merge glob).initial.v = _ :=
      (taken_of_read hinitial).over (taken_of_read hinitial')
    rw [hv]
    exact Int.toNat_of_nonneg (cast_range .uint64 _).1
  show IsGiven _ (own.merge glob).delta.v ∧
    IsGiven _ ((own.merge glob).initial.v.toNat : Nat) ∧
      IsGiven _ ((own.merge glob).exp.v.toNat : Nat) ↔ _
  rw [and_iff_left htime, hoffset, hfirst, isGiven_int64, isGiven_uint64]
  exact Iff.rfl

/-- **One key**: its numbers are those given when they fit. -/
theorem item_counts {hd : Header k.Opts} (hh : header k.cls args = some hd)
    (hreq : itemRequest k.cls k.request hd item = some req) :
    AsGiven k (some (arg args 1)) item.2 req.nums ↔ Fits k args item := by
  cases k with
  | arithmetic => exact arithmetic_counts hh hreq
  | get => exact isGiven_time (get_counts GetCommand rfl rfl (fun _ => rfl) hh hreq)
  | lock => exact isGiven_time (get_counts LockCommand rfl rfl (fun _ => rfl) hh hreq)
  | store op => exact store_counts hh hreq
  | touch => exact touch_counts hh hreq
  | unlock | delete | observe | endure | stats | http => exact Iff.rfl

/-- The durability counts of a call. -/
theorem entry_counts {lcb : LcbCall} (hcall : Command.call k args = some lcb) :
    CopiesAsGiven (some (arg args 1)) lcb.entry := by
  unfold Command.call at hcall
  simp only [Option.bind_eq_bind, Option.bind_eq_some_iff] at hcall
  obtain ⟨hd, hh, reqs, _, hcall⟩ := hcall
  split at hcall
  · cases hcall
  · cases hcall
    cases k with
    | endure =>
      obtain ⟨glob, hglob, hafter⟩ := call_parsed rfl hh
      have hglob' : hd.globalOptions = glob := hafter
      obtain ⟨hpersist, hreplicate⟩ := durability_parsed hglob
      show CopiesAsGiven _ (.durability (EndureCommand.dopts hd.globalOptions))
      rw [hglob']
      exact ⟨(taken_of_read hpersist).sends_signed, (taken_of_read hreplicate).sends_signed⟩
    | _ => exact trivial

end Item

/-- **When the numbers given are those the commands have**: every number is judged exactly unless
    it is negative and its slot `uint64_t`; and the numbers of an accepted call are those the caller
    gave if they fit. -/
theorem numbers_exact_iff :
    (∀ t n s, Exact t n s ↔ (t = .uint64 → 0 ≤ n.integerValue)) ∧
    ∀ k args h lcb, ByKey k → lower k args h = some lcb →
      (CopiesAsGiven (some (arg args 1)) lcb.entry ∧
        List.Forall₂ (fun item req => AsGiven k (some (arg args 1)) item.2 req.nums)
          (KeysInfo.setKeys (arg args 0)).items lcb.cmds ↔
        ∀ item ∈ (KeysInfo.setKeys (arg args 0)).items, Fits k args item) := by
  refine ⟨exact_iff, fun k args h lcb hk hlower => ?_⟩
  rw [lower_call hk] at hlower
  obtain ⟨hd, hh, hreqs⟩ := call_requests hlower
  rw [and_iff_right (entry_counts hlower)]
  exact forall₂_iff_forall hreqs fun item req hreq => item_counts hh hreq

end Commands

/-! ## Timeouts -/

section Timeout

variable [Runtime] {σ : Type} {lcb : Lcb σ} {mode : CntlMode}

/-- What libcouchbase promises of a timeout: 32 bits are stored, and read as they are. -/
def Stores (lcb : Lcb σ) : Prop :=
  ∀ mode v s, mode.isTimeout = true → v < 2 ^ 32 →
    (lcb.set mode v s).1 = LCB_SUCCESS ∧ lcb.get mode (lcb.set mode v s).2 = (LCB_SUCCESS, v)

/-- **An assignment is reported as an error, or read as it was made.** -/
def ReadAsSet (lcb : Lcb σ) (mode : CntlMode) (ms : Nat) (s : σ) : Prop :=
  match Connection.assignSetting lcb mode (ResponseInfo.number ms) s with
  | .error _ => True
  | .ok s' => Connection.setting lcb mode s' = .ok (ResponseInfo.number ms)

/-- The microseconds a number of milliseconds comes to. -/
def micros (ms : Nat) : Nat := (Num.fin ms).timesThousand.uint32Value

omit [Runtime] in
theorem uint32Value_lt (n : Num) : n.uint32Value < 2 ^ 32 := by
  cases n with
  | fin q =>
    simp only [Num.uint32Value]
    omega
  | nan | inf negative =>
    show 0 < 2 ^ 32
    decide

theorem ctl_get (hm : mode.isTimeout = true) (s : σ) :
    Connection.setting lcb mode s = Control.read (lcb.get mode s) (· / 1000) := by
  cases mode <;> first | rfl | cases hm

theorem ctl_set (hm : mode.isTimeout = true) (ms : Nat) (s : σ) :
    Connection.ctl lcb mode (ResponseInfo.number ms) s =
      Control.written (lcb.set mode (micros ms) s) := by
  cases mode <;> first | rfl | cases hm

/-- What is read is what fits in 32 bits of microseconds. -/
theorem readAsSet_iff (hs : Stores lcb) (hm : mode.isTimeout = true) (ms : Nat) (s : σ) :
    ReadAsSet lcb mode ms s ↔ micros ms / 1000 = ms := by
  obtain ⟨hset, hget⟩ := hs mode (micros ms) s hm (uint32Value_lt _)
  have hassign : Connection.assignSetting lcb mode (ResponseInfo.number ms) s =
      .ok (lcb.set mode (micros ms) s).2 := by
    unfold Connection.assignSetting
    rw [ctl_set hm]
    simp only [Control.written, hset, if_true]
  have hread : Connection.setting lcb mode (lcb.set mode (micros ms) s).2 =
      .ok (ResponseInfo.number (micros ms / 1000)) := by
    rw [ctl_get hm, hget]
    rfl
  unfold ReadAsSet
  rw [hassign]
  show Connection.setting lcb mode (lcb.set mode (micros ms) s).2 = _ ↔ _
  rw [hread]
  constructor
  · intro h
    simpa [ResponseInfo.number] using h
  · intro h
    rw [h]

omit [Runtime] in
theorem truncate_natCast (n : Nat) : Num.truncate n = n := by
  unfold Num.truncate
  rw [Rat.num_natCast, Rat.den_natCast]
  exact Int.tdiv_one _

omit [Runtime] in
/-- A product that is a double is not rounded. -/
theorem timesThousand_natCast {ms : Nat} (h : ms * 1000 < 2 ^ 53) :
    (Num.fin ms).timesThousand = .fin (ms * 1000 : Nat) := by
  have hcast : (ms : Rat) * 1000 = ((ms * 1000 : Nat) : Rat) := by
    push_cast
    rfl
  unfold Num.timesThousand
  dsimp only
  rw [hcast, Double.round_natCast h]

omit [Runtime] in
/-- It loses what is above 32 bits. -/
theorem micros_eq {ms : Nat} (h : ms * 1000 < 2 ^ 53) : micros ms = ms * 1000 % 2 ^ 32 := by
  unfold micros
  rw [timesThousand_natCast h]
  show (Num.truncate (ms * 1000 : Nat) % 2 ^ 32).toNat = _
  rw [truncate_natCast]
  exact congrArg Int.toNat (Int.natCast_mod (ms * 1000) (2 ^ 32)).symm

/-- **A timeout is read as it was set exactly when it is 32 bits of microseconds.** -/
theorem timeout_kept_iff (hs : Stores lcb) (hm : mode.isTimeout = true) (ms : Nat) (s : σ) :
    ReadAsSet lcb mode ms s ↔ ms * 1000 < 2 ^ 32 := by
  rw [readAsSet_iff hs hm ms s]
  constructor
  · intro h
    have hlt : micros ms < 2 ^ 32 := uint32Value_lt _
    omega
  · intro h
    rw [micros_eq (h.trans (by decide)), Nat.mod_eq_of_lt h]
    exact Nat.mul_div_cancel ms (by decide)

end Timeout

end Proof

section Example

open scoped SmallRuntime

/-- Two counters, one of them with options of its own. -/
def incrTwo : List Value :=
  [.object [("a", .object [("initial", .number (.fin (2 ^ 63))), ("offset", .number (.fin (-3)))]),
      ("b", .object [])],
    .object [("offset", .number (.fin 2)), ("expiry", .number (.fin 60))], .function 1]

/-- One starts at 2 ^ 63 and goes down by 3, the other goes up by 2. -/
theorem Proof.numbers_exact_iff_two : ∃ lcb, Proof.lower .arithmetic incrTwo [] = some lcb ∧
    lcb.cmds.map (fun req => (req.nums.delta, req.nums.initial, req.nums.exptime)) =
      [(-3, 2 ^ 63, 60), (2, 0, 60)] ∧
    List.Forall₂ (fun item req =>
        Proof.AsGiven .arithmetic (some (Command.arg incrTwo 1)) item.2 req.nums)
      (KeysInfo.setKeys (Command.arg incrTwo 0)).items lcb.cmds := by
  have htest : (Proof.lower .arithmetic incrTwo []).any (fun lcb =>
      lcb.cmds.map (fun req => (req.nums.delta, req.nums.initial, req.nums.exptime)) =
        [(-3, 2 ^ 63, 60), (2, 0, 60)]) = true := by
    decide +kernel
  obtain ⟨lcb, hlower, hnums⟩ := (Option.any_eq_true _ _).mp htest
  have hiff := Proof.numbers_exact_iff.2 .arithmetic incrTwo [] lcb ⟨nofun, nofun⟩ hlower
  refine ⟨lcb, hlower, of_decide_eq_true hnums, (hiff.mpr fun item hitem => ?_).2⟩
  have hwithin (n : Option Num) (lo hi : Int)
      (h : n.all (fun n => (Proof.wholePart n).any fun i => lo ≤ i && i ≤ hi) = true) :
      Proof.Within lo hi n := by
    rintro n rfl
    obtain ⟨i, hi, hle⟩ := (Option.any_eq_true _ _).mp h
    obtain ⟨hlo, hhi⟩ := Bool.and_eq_true_iff.mp hle
    exact ⟨i, hi, of_decide_eq_true hlo, of_decide_eq_true hhi⟩
  rcases List.mem_cons.mp hitem with rfl | hitem
  · exact ⟨hwithin _ _ _ (by decide +kernel), hwithin _ _ _ (by decide +kernel)⟩
  · rw [List.mem_singleton.mp hitem]
    exact ⟨hwithin _ _ _ (by decide +kernel), hwithin _ _ _ (by decide +kernel)⟩

def incrNegative : List Value :=
  [.string "a", .object [("initial", .number (.fin (-1)))], .function 1]

/-- A counter that starts at -1 starts at 2 ^ 64 - 1. -/
theorem Proof.negative_initial :
    ¬ Proof.Exact .uint64 (.fin (-1)) { v := 0 } ∧
    ∃ lcb, Proof.lower .arithmetic incrNegative [] = some lcb ∧
      lcb.cmds.map (·.nums.initial) = [18446744073709551615] ∧
      ¬ List.Forall₂ (fun item req =>
          Proof.AsGiven .arithmetic (some (Command.arg incrNegative 1)) item.2 req.nums)
        (KeysInfo.setKeys (Command.arg incrNegative 0)).items lcb.cmds := by
  have htest : (Proof.lower .arithmetic incrNegative []).any
      (fun lcb => lcb.cmds.map (·.nums.initial) = [18446744073709551615]) = true := by
    decide +kernel
  obtain ⟨lcb, hlower, hinitial⟩ := (Option.any_eq_true _ _).mp htest
  have hinitial := of_decide_eq_true hinitial
  refine ⟨fun hexact => ?_, lcb, hlower, hinitial, fun hcounts => ?_⟩
  · have hnonneg := (Proof.exact_iff _ _ _).mp hexact rfl
    exact absurd hnonneg (by decide +kernel)
  · have hitems : (KeysInfo.setKeys (Command.arg incrNegative 0)).items =
        [(some (.string "a"), none)] := rfl
    rw [hitems] at hcounts
    obtain ⟨req, rest, hreq, _, hcmds⟩ := List.forall₂_cons_left_iff.mp hcounts
    rw [hcmds] at hinitial
    obtain ⟨hone, _⟩ := List.cons.inj hinitial
    have hgiven : Proof.given none (some (Command.arg incrNegative 1)) NameMap.initial =
        some (.fin (-1)) := by decide +kernel
    have hcount : Proof.IsGiven (Proof.given none (some (Command.arg incrNegative 1))
      NameMap.initial) req.nums.initial := hreq.2.1
    rw [hgiven] at hcount
    have hwhole : Num.truncate (-1) = req.nums.initial := Option.some.inj hcount
    have hminus : Num.truncate (-1) = -1 := by decide +kernel
    omega

/-- Settings as they were stored. -/
def stored : Lcb (CntlMode → Nat) where
  set := fun mode v s => (LCB_SUCCESS, Function.update s mode v)
  get := fun mode s => (LCB_SUCCESS, s mode)
  vbmap := fun _ _ => .error 1
  info := fun _ _ => .undefined

theorem Proof.stored_stores : Proof.Stores stored := by
  intro mode v s _ _
  refine ⟨rfl, ?_⟩
  show (LCB_SUCCESS, Function.update s mode v mode) = _
  rw [Function.update_self]

/-- The default timeout. -/
theorem Proof.timeout_kept_iff_default :
    Proof.ReadAsSet stored .opTimeout 2500 (fun _ => 0) :=
  (Proof.timeout_kept_iff Proof.stored_stores rfl 2500 _).mpr (by decide)

/-- 72 minutes are read as none. -/
theorem Proof.timeout_wraps :
    Connection.setting stored .opTimeout
        (stored.set .opTimeout (Proof.micros 4294968) fun _ => 0).2 =
      .ok (ResponseInfo.number 0) ∧
    ¬ Proof.ReadAsSet stored .opTimeout 4294968 (fun _ => 0) := by
  have hmicros : Proof.micros 4294968 = 704 := Proof.micros_eq (by decide)
  refine ⟨?_, fun hread => ?_⟩
  · rw [hmicros]
    rfl
  · have hkept := (Proof.readAsSet_iff Proof.stored_stores rfl _ _).mp hread
    rw [hmicros] at hkept
    exact absurd hkept (by decide)

end Example

end Couchnode
