import Couchnode.Lib.LittleEndian
import Couchnode.Native.Options

/-!
# CAS objects

A CAS travels through JavaScript as the two 32-bit elements of an external array. The decoder
counts the elements of whatever it is given and then reads eight bytes. Counting is enough among
the objects the binding builds (`parse_createCas`). Two elements of another size pass the count
as well: two bytes are read past their end, two doubles are read as a CAS that nobody built. So
the handles decode their own image only, exactly where no such array is given (`decodes_iff`).
-/

set_option autoImplicit false

namespace Couchnode

namespace Proof

/-! ## The bytes of a CAS -/

theorem casBytes_eq (cas : Nat) : Cas.toBytes cas = LittleEndian.toBytes 8 cas := rfl

theorem casOfBytes_eq (bs : List UInt8) : Cas.ofBytes bs = LittleEndian.ofBytes bs := by
  induction bs with
  | nil => rfl
  | cons b bs ih =>
    rw [LittleEndian.ofBytes_cons, ← ih]
    rfl

theorem cas_of_bytes {cas : Nat} (h : cas < 2 ^ 64) : Cas.ofBytes (Cas.toBytes cas) = cas := by
  rw [casOfBytes_eq, casBytes_eq, LittleEndian.ofBytes_toBytes]
  exact Nat.mod_eq_of_lt h

/-- Eight bytes are those of one CAS. -/
theorem bytes_of_cas {bs : List UInt8} (h : bs.length = 8) :
    Cas.ofBytes bs < 2 ^ 64 ∧ Cas.toBytes (Cas.ofBytes bs) = bs := by
  rw [casOfBytes_eq, casBytes_eq, ← h]
  constructor
  · have hlt := LittleEndian.ofBytes_lt bs
    rw [h] at hlt
    exact hlt
  · exact LittleEndian.toBytes_ofBytes bs

/-! ## What the slot takes -/

variable {x : Value} {s : Slot Nat}

/-- The slot reports a CAS. -/
def Finds (x : Value) (s : Slot Nat) (cas : Nat) : Prop :=
  ∃ s', CasSlot.parseValue x s = .ok s' ∧ s'.isFound ∧ s'.v = cas

/-- The slot reports an error. -/
def Refuses (x : Value) (s : Slot Nat) : Prop :=
  CasSlot.parseValue x s = .bad s (.eArguments "Bad CAS" (some x))

/-- A CAS is found in the objects built for it, and anything else is refused. -/
def DecodesOwnImage (x : Value) : Prop :=
  ∀ s, (∀ cas, Finds x s cas ↔ cas < 2 ^ 64 ∧ x = Cas.createCas cas) ∧
    ((∀ cas < 2 ^ 64, x ≠ Cas.createCas cas) → Refuses x s)

/-- Two elements, and not the eight bytes of two unsigned ones. -/
def Mistaken (x : Value) : Prop :=
  ∃ t bs, x.externalArray = some (t, bs) ∧ bs.length / t.elementSize = 2 ∧
    ¬ (t = .unsignedInt ∧ bs.length = 8)

theorem refuses_of_notCas (hx : maybeSetFalse x = false) (h : Cas.getCas x = .notCas) :
    Refuses x s := by
  unfold Refuses CasSlot.parseValue
  rw [hx, h]
  rfl

theorem faults_of_overread (hx : maybeSetFalse x = false) (h : Cas.getCas x = .overread) :
    CasSlot.parseValue x s = .fault := by
  unfold CasSlot.parseValue
  rw [hx, h]
  rfl

theorem finds_of_cas {cas cas' : Nat} (hx : maybeSetFalse x = false)
    (h : Cas.getCas x = .cas cas) : Finds x s cas' ↔ cas' = cas := by
  have hparse : CasSlot.parseValue x s = .ok { v := cas, status := .found } := by
    unfold CasSlot.parseValue
    rw [hx, h]
    rfl
  constructor
  · rintro ⟨s', hs', -, rfl⟩
    rw [hparse] at hs'
    cases hs'
    rfl
  · rintro rfl
    exact ⟨_, hparse, rfl, rfl⟩

theorem Refuses.not_finds {cas : Nat} (h : Refuses x s) : ¬ Finds x s cas := by
  rintro ⟨s', hs', -⟩
  rw [Refuses, hs'] at h
  cases h

/-- The count of the elements is all that `GetCas` goes by. -/
theorem getCas_two {t : ExternalArrayType} {bs : List UInt8}
    (hx : x.externalArray = some (t, bs)) (h : bs.length / t.elementSize = 2) :
    Cas.getCas x =
      if bs.length < 8 then .overread else .cas (Cas.ofBytes (bs.take 8)) := by
  have hobj : x.isObject = true := by
    cases x with
    | external t bs | buffer bs => rfl
    | _ => cases hx
  have hlen : x.externalArrayDataLength = 2 := by
    rw [Value.externalArrayDataLength, hx]
    exact congrArg Int.ofNat h
  unfold Cas.getCas
  rw [hobj, hlen, hx]
  rfl

theorem getCas_other (h : ∀ t bs, x.externalArray = some (t, bs) → bs.length / t.elementSize ≠ 2) :
    Cas.getCas x = .notCas := by
  have hlen : x.externalArrayDataLength ≠ 2 := by
    unfold Value.externalArrayDataLength
    cases hx : x.externalArray with
    | none => decide
    | some array =>
      intro hlen
      exact h array.1 array.2 hx (Int.ofNat.inj hlen)
  unfold Cas.getCas
  rw [if_pos hlen]
  exact ite_self _

theorem createCas_externalArray (cas : Nat) :
    (Cas.createCas cas).externalArray = some (.unsignedInt, Cas.toBytes cas) := rfl

theorem getCas_createCas {cas : Nat} (h : cas < 2 ^ 64) :
    Cas.getCas (Cas.createCas cas) = .cas cas := by
  have hlen := Cas.toBytes_length cas
  rw [getCas_two (createCas_externalArray cas) (by rw [hlen]; rfl), hlen, if_neg (by decide),
    List.take_of_length_le (Nat.le_of_eq hlen), cas_of_bytes h]

/-- What was built for a CAS is read as it. -/
theorem parse_createCas {cas : Nat} (h : cas < 2 ^ 64) : Finds (Cas.createCas cas) s cas :=
  (finds_of_cas rfl (getCas_createCas h)).mpr rfl

theorem createCas_inj {cas cas' : Nat} (h : cas < 2 ^ 64) (h' : cas' < 2 ^ 64)
    (heq : Cas.createCas cas = Cas.createCas cas') : cas = cas' := by
  have hgot := getCas_createCas h
  rw [heq, getCas_createCas h'] at hgot
  exact (Cas.Got.cas.inj hgot).symm

/-- Two unsigned ints are a CAS object. -/
theorem eq_createCas {bs : List UInt8} (hx : x.externalArray = some (.unsignedInt, bs))
    (hlen : bs.length = 8) : ∃ cas < 2 ^ 64, x = Cas.createCas cas := by
  obtain ⟨hlt, hbytes⟩ := bytes_of_cas hlen
  refine ⟨_, hlt, ?_⟩
  cases x with
  | external t data =>
    cases hx
    rw [Cas.createCas, hbytes]
  | _ => cases hx

/-- An array that is mistaken for a CAS is none. -/
theorem Mistaken.ne_createCas (h : Mistaken x) (cas : Nat) : x ≠ Cas.createCas cas := by
  rintro rfl
  obtain ⟨t, bs, hx, -, hother⟩ := h
  cases hx
  exact hother ⟨rfl, Cas.toBytes_length cas⟩

/-- It is read, or read past. -/
theorem Mistaken.not_refuses (hx : maybeSetFalse x = false) (h : Mistaken x) : ¬ Refuses x s := by
  obtain ⟨t, bs, harray, htwo, -⟩ := h
  have hget := getCas_two harray htwo
  intro hrefuses
  by_cases hlen : bs.length < 8
  · rw [if_pos hlen] at hget
    rw [Refuses, faults_of_overread hx hget] at hrefuses
    cases hrefuses
  · rw [if_neg hlen] at hget
    exact hrefuses.not_finds ((finds_of_cas hx hget).mpr rfl)

theorem decodes_createCas {cas : Nat} (h : cas < 2 ^ 64) : DecodesOwnImage (Cas.createCas cas) := by
  intro s
  refine ⟨fun cas' => ?_, fun hne => absurd rfl (hne cas h)⟩
  rw [finds_of_cas rfl (getCas_createCas h)]
  constructor
  · rintro rfl
    exact ⟨h, rfl⟩
  · rintro ⟨hlt, heq⟩
    exact createCas_inj hlt h heq.symm

/-- **The handles decode their own image.** A value that is not undefined, null or false is taken
    for the CAS it was built for and refused otherwise, exactly if it is no array of two elements
    that is mistaken for one. -/
theorem decodes_iff (hx : maybeSetFalse x = false) : DecodesOwnImage x ↔ ¬ Mistaken x := by
  constructor
  · intro hdecodes hmistaken
    refine hmistaken.not_refuses hx ((hdecodes { v := 0 }).2 fun cas _ => ?_)
    exact hmistaken.ne_createCas cas
  · intro hno
    by_cases htwo : ∃ t bs, x.externalArray = some (t, bs) ∧ bs.length / t.elementSize = 2
    · obtain ⟨t, bs, harray, hlen⟩ := htwo
      have hints : t = .unsignedInt ∧ bs.length = 8 := by
        by_contra hother
        exact hno ⟨t, bs, harray, hlen, hother⟩
      obtain ⟨rfl, hbytes⟩ := hints
      obtain ⟨cas, hlt, rfl⟩ := eq_createCas harray hbytes
      exact decodes_createCas hlt
    · have hrefuses : ∀ s, Refuses x s := fun s =>
        refuses_of_notCas hx (getCas_other fun t bs harray hlen => htwo ⟨t, bs, harray, hlen⟩)
      intro s
      refine ⟨fun cas => iff_of_false (hrefuses s).not_finds ?_, fun _ => hrefuses s⟩
      rintro ⟨hlt, rfl⟩
      exact (hrefuses s).not_finds (parse_createCas hlt)

end Proof

/-- The CAS of a document is taken. -/
theorem Proof.decodes_iff_five : Proof.DecodesOwnImage (Cas.createCas 5) :=
  (Proof.decodes_iff rfl).mpr fun hmistaken => hmistaken.ne_createCas 5 rfl

/-- Two bytes are read past their end, and two doubles are a CAS. -/
theorem Proof.two_bytes_overread :
    CasSlot.parseValue (.buffer [1, 2]) { v := 0 } = .fault ∧
    Proof.Finds (.external .double (List.replicate 16 1)) { v := 0 } 72340172838076673 ∧
    ¬ Proof.DecodesOwnImage (.buffer [1, 2]) ∧
    ¬ Proof.DecodesOwnImage (.external .double (List.replicate 16 1)) := by
  have hbytes : Proof.Mistaken (.buffer [1, 2]) := ⟨.unsignedByte, [1, 2], rfl, rfl, by decide⟩
  have hdoubles : Proof.Mistaken (.external .double (List.replicate 16 1)) :=
    ⟨.double, List.replicate 16 1, rfl, by decide, by decide⟩
  refine ⟨rfl, ⟨_, rfl, rfl, by decide⟩, fun hdecodes => ?_, fun hdecodes => ?_⟩
  · exact hbytes.not_refuses rfl ((hdecodes { v := 0 }).2 fun cas _ => hbytes.ne_createCas cas)
  · exact hdoubles.not_refuses rfl
      ((hdecodes { v := 0 }).2 fun cas _ => hdoubles.ne_createCas cas)

end Couchnode
