import Couchnode.Spec.Requests
import Couchnode.Proof.Memory

/-!
# Text lowered into buffers

The steps that put text into a command's buffers, as what they leave behind when they finish.
`Grew s s'` is the frame: buffers may be added, nothing stored moves, the command list is
untouched. `getBufBackedString_done` and `encode_done` say which text a finished step has
stored, in the pure terms of `backedString` and `ValueFormat.encoding`.
-/

set_option autoImplicit false

namespace Couchnode

namespace Proof

open Prog

/-- A buffer step: the buffers are sound afterwards, and nothing stored has moved. -/
structure Grew (s s' : PState) : Prop where
  ok : BufOk s'.heap s'.bufs
  kept : Kept s.heap s.bufs s'.heap s'.bufs
  commands : s'.commands = s.commands

namespace Grew

variable {s s' s'' : PState}

theorem refl (ok : BufOk s.heap s.bufs) : Grew s s := ⟨ok, .refl _ _, rfl⟩

theorem trans (h : Grew s s') (h' : Grew s' s'') : Grew s s'' :=
  ⟨h'.ok, h.kept.trans h'.kept, h'.commands.trans h.commands⟩

end Grew

/-! ## What the steps on memory leave alone -/

section Memory

variable {ν : Type} {view : PState → ν}

/-- A view of the state that has nothing of its memory. -/
def NoMemory (view : PState → ν) : Prop :=
  ∀ s h b l, view { s with heap := h, bufs := b, commands := l } = view s

theorem NoMemory.getBuffer (hv : NoMemory view) (n : Nat) :
    Leaves view (PState.getBuffer n) := by
  intro s a s' h
  unfold PState.getBuffer at h
  split at h
  · cases h
    exact hv s _ _ s.commands
  · cases h

theorem NoMemory.writeBytes (hv : NoMemory view) (p : CharPtr) (bs : List UInt8) :
    Leaves view (PState.writeBytes p bs) := by
  intro s a s' h
  unfold PState.writeBytes at h
  split at h
  · cases h
    exact hv s _ s.bufs s.commands
  · cases h

theorem NoMemory.getAt (hv : NoMemory view) (ix : Nat) : Leaves view (PState.getAt ix) := by
  intro s a s' h
  unfold PState.getAt at h
  split at h
  · cases h
    exact hv s _ s.bufs s.commands
  · cases h

theorem NoMemory.assign (hv : NoMemory view) (p : CmdPtr) (f : LcbCmd → LcbCmd) :
    Leaves view (PState.assign p f) := by
  intro s a s' h
  unfold PState.assign at h
  split at h
  · cases h
    exact hv s _ s.bufs _
  · cases h

end Memory

/-! ## The primitive steps, finished -/

section Primitive

variable {s s' : PState} {α : Type}

section

variable [Runtime]

theorem liftParsed_done {p : Parsed α} {a : α} (h : PState.liftParsed p s = .done a s') :
    p = .ok a ∧ s' = s := by
  cases p with
  | ok b => cases h; exact ⟨rfl, rfl⟩
  | bad b c => cases h
  | fault => cases h

theorem fail_done {c : Complaint} {a : α} (h : PState.fail c s = .done a s') : False := by
  cases h

theorem record_done {c : Complaint} {u : Unit} (ok : BufOk s.heap s.bufs)
    (h : PState.record c s = .done u s') : Grew s s' := by
  cases h
  exact ⟨ok, .refl _ _, rfl⟩

theorem recordIf_done {c : Option Complaint} {u : Unit} (ok : BufOk s.heap s.bufs)
    (h : PState.recordIf c s = .done u s') : Grew s s' := by
  cases c with
  | none => cases h; exact .refl ok
  | some c => exact record_done ok h

end

theorem getBuffer_done {n : Nat} {p : CharPtr} (ok : BufOk s.heap s.bufs) (hn : 0 < n)
    (h : PState.getBuffer n s = .done p s') :
    ∃ blk off, p = .inBlock blk off ∧ Grew s s' ∧ Reserved s'.heap s'.bufs blk off n ∧
      ∀ q bs, Stored s.heap s.bufs q bs → Apart q bs.length blk off n := by
  obtain ⟨blk, off, h', b', he, hok, hk, hres, hap⟩ := getBuffer_spec ok hn
  simp only [PState.getBuffer, he] at h
  cases h
  exact ⟨blk, off, rfl, ⟨hok, hk, rfl⟩, hres, fun q bs hs => (hap q bs hs).apart n⟩

end Primitive

theorem Reserved.sub {h : Heap} {b : BufferList} {blk off n off' n' : Nat}
    (r : Reserved h b blk off n) (h₂ : off' + n' ≤ off + n) :
    Reserved h b blk off' n' := by
  obtain ⟨hm, ⟨cs, hr, hl⟩, hf⟩ := r
  exact ⟨hm, ⟨cs, hr, by omega⟩, fun o ho => by have := hf o ho; omega⟩

/-- A write into a region just reserved, as a step from before the reservation. -/
theorem writeBytes_done {s s₁ s₂ : PState} {blk off n : Nat} {bs : List UInt8} {u : Unit}
    (hlen : bs.length ≤ n) (g : Grew s s₁) (hres : Reserved s₁.heap s₁.bufs blk off n)
    (hap : ∀ q cs, Stored s.heap s.bufs q cs → Apart q cs.length blk off n)
    (h : PState.writeBytes (.inBlock blk off) bs s₁ = .done u s₂) :
    Grew s s₂ ∧ Stored s₂.heap s₂.bufs (.inBlock blk off) bs ∧
      Reserved s₂.heap s₂.bufs blk off n ∧
      ∀ q cs, Stored s₁.heap s₁.bufs q cs → Apart q cs.length blk off n →
        Stored s₂.heap s₂.bufs q cs := by
  obtain ⟨h', he, hok, hres', hst, hl, hsame, hothers⟩ := writeBytes_spec g.ok hres hlen
  simp only [PState.writeBytes, he] at h
  cases h
  have hcell : ∃ old, s₁.heap.read blk = some (.bytes old) := by
    obtain ⟨_, ⟨old, hr, _⟩, _⟩ := hres
    exact ⟨old, hr⟩
  refine ⟨⟨hok, ?_, g.commands⟩, hst, hres', hothers⟩
  refine ⟨fun x c hc hr => ?_, fun x hx hn => ?_, ?_, g.kept.mine, g.kept.more,
    fun p cs hs => ?_⟩
  · have hr₁ := g.kept.other x c hc hr
    have hne : x ≠ blk := by
      rintro rfl
      obtain ⟨old, ho⟩ := hcell
      rw [hr₁] at ho
      exact hc old (Option.some.inj ho)
    show h'.read x = some c
    rw [hsame x hne]
    exact hr₁
  · have hne : x ≠ blk := by
      rintro rfl
      exact hn hres'.1
    show h'.read x = s.heap.read x
    rw [hsame x hne]
    exact g.kept.old x hx hn
  · show s.heap.length ≤ h'.length
    rw [hl]
    exact g.kept.length
  · exact hothers p cs (g.kept.stored p cs hs) (hap p cs hs)

/-- Reserve and write: the text is stored. -/
theorem store_done {s s₁ s₂ : PState} {n : Nat} {bs : List UInt8} {p : CharPtr} {u : Unit}
    (ok : BufOk s.heap s.bufs) (hn : 0 < n) (hlen : bs.length ≤ n)
    (hg : PState.getBuffer n s = .done p s₁) (hw : PState.writeBytes p bs s₁ = .done u s₂) :
    p ≠ .null ∧ Grew s s₂ ∧ Stored s₂.heap s₂.bufs p bs := by
  obtain ⟨blk, off, rfl, g, hres, hap⟩ := getBuffer_done ok hn hg
  obtain ⟨g', hst, _, _⟩ := writeBytes_done hlen g hres hap hw
  exact ⟨by simp, g', hst⟩

/-- Reserve one more byte, write, and terminate: the text is stored with its NUL. -/
theorem storeNul_done {s s₁ s₂ s₃ : PState} {bs : List UInt8} {p : CharPtr} {u u' : Unit}
    (ok : BufOk s.heap s.bufs) (hg : PState.getBuffer (bs.length + 1) s = .done p s₁)
    (hw : PState.writeBytes p bs s₁ = .done u s₂)
    (hz : PState.writeBytes (Command.offset p bs.length) [0] s₂ = .done u' s₃) :
    p ≠ .null ∧ Grew s s₃ ∧ Stored s₃.heap s₃.bufs p bs ∧
      Stored s₃.heap s₃.bufs p (bs ++ [0]) := by
  obtain ⟨blk, off, rfl, g, hres, hap⟩ := getBuffer_done ok (Nat.succ_pos _) hg
  obtain ⟨g₂, hst, hres₂, _⟩ := writeBytes_done (Nat.le_succ _) g hres hap hw
  have hsub : Reserved s₂.heap s₂.bufs blk (off + bs.length) 1 := hres₂.sub (by omega)
  have hap' : ∀ q cs, Stored s.heap s.bufs q cs → Apart q cs.length blk (off + bs.length) 1 := by
    intro q cs hs
    have := hap q cs hs
    cases q with
    | null => trivial
    | lit s => trivial
    | inBlock x o =>
      rcases this with h | h | h
      · exact .inl h
      · exact .inr (.inl (by omega))
      · exact .inr (.inr (by omega))
  obtain ⟨g₃, hst₀, hres₃, hothers⟩ := writeBytes_done (by simp) g₂ hsub hap' hz
  have hst₃ := hothers _ _ hst (.inr (.inl (Nat.le_refl _)))
  refine ⟨by simp, g₃, hst₃, ?_⟩
  obtain ⟨⟨hm, ⟨cs, hr, hl⟩, hf⟩, ds, hr', hsl⟩ := hst₃
  obtain ⟨⟨_, ⟨es, hre, hle⟩, hf'⟩, fs, hrf, hsl'⟩ := hst₀
  rw [hr] at hr' hre hrf
  cases hr'
  cases hre
  cases hrf
  refine ⟨⟨hm, ⟨cs, hr, by simpa [Nat.add_assoc] using hle⟩, fun o ho => ?_⟩, cs, hr, ?_⟩
  · simpa [Nat.add_assoc] using hf' o ho
  · rw [List.length_append, slice_add, hsl]
    simpa using hsl'

/-! ## Spans -/

/-- A pointer and a length that lead to this text, or to no data. -/
def SpanHolds (h : Heap) (b : BufferList) (sp : Span) (v : Option (List UInt8)) : Prop :=
  (sp = {} ∧ v = none) ∨
    ∃ bs, v = some bs ∧ sp.ptr ≠ .null ∧ sp.len = bs.length ∧ Stored h b sp.ptr bs

/-- A C string with this text, or no data. -/
def CStrHolds (h : Heap) (b : BufferList) (p : CharPtr) (v : Option (List UInt8)) : Prop :=
  (p = .null ∧ v = none) ∨
    ∃ bs, v = some (bs.takeWhile (· ≠ 0)) ∧
      ((∃ s, p = .lit s ∧ bs = utf8 s) ∨ (p ≠ .null ∧ Stored h b p (bs ++ [0])))

theorem SpanHolds.mono {h h' : Heap} {b b' : BufferList} {sp : Span} {v : Option (List UInt8)}
    (hs : SpanHolds h b sp v) (hst : ∀ p bs, Stored h b p bs → Stored h' b' p bs) :
    SpanHolds h' b' sp v := by
  rcases hs with hs | ⟨bs, hv, hp, hl, hs⟩
  · exact .inl hs
  · exact .inr ⟨bs, hv, hp, hl, hst _ _ hs⟩

theorem CStrHolds.mono {h h' : Heap} {b b' : BufferList} {p : CharPtr} {v : Option (List UInt8)}
    (hs : CStrHolds h b p v) (hst : ∀ p bs, Stored h b p bs → Stored h' b' p bs) :
    CStrHolds h' b' p v := by
  rcases hs with hs | ⟨bs, hv, hl | ⟨hp, hs⟩⟩
  · exact .inl hs
  · exact .inr ⟨bs, hv, .inl hl⟩
  · exact .inr ⟨bs, hv, .inr ⟨hp, hst _ _ hs⟩⟩

theorem readSpan_holds {h : Heap} {b : BufferList} {sp : Span} {v : Option (List UInt8)}
    (hs : SpanHolds h b sp v) : h.readSpan sp = some v := by
  obtain ⟨p, n⟩ := sp
  rcases hs with ⟨he, rfl⟩ | ⟨bs, rfl, hp, hl, hst⟩
  · cases he
    rfl
  · have hread := readBytes_stored hst
    simp only at hp hl hread
    subst hl
    cases p with
    | null => exact absurd rfl hp
    | lit s => simp [Heap.readSpan, hread]
    | inBlock blk off => simp [Heap.readSpan, hread]

theorem takeWhile_append_zero (bs cs : List UInt8) :
    (bs ++ 0 :: cs).takeWhile (· ≠ 0) = bs.takeWhile (· ≠ 0) := by
  induction bs with
  | nil => simp
  | cons b bs ih =>
    by_cases hb : b = 0
    · simp [hb]
    · simpa [List.takeWhile_cons, hb] using ih

theorem readCString_holds {h : Heap} {b : BufferList} {p : CharPtr} {v : Option (List UInt8)}
    (hs : CStrHolds h b p v) : h.readOptCString p = some v := by
  rcases hs with ⟨rfl, rfl⟩ | ⟨bs, rfl, ⟨s, rfl, rfl⟩ | ⟨hp, hst⟩⟩
  · rfl
  · simp [Heap.readOptCString, Heap.readCString]
  · cases p with
    | null => exact absurd rfl hp
    | lit s =>
      have hst : bs ++ [0] = utf8 s := hst
      simp only [Heap.readOptCString, Heap.readCString, ← hst, if_neg hp, Option.map_some]
      rw [takeWhile_append_zero]
    | inBlock blk off =>
      obtain ⟨⟨_, ⟨cs, hr, hle⟩, _⟩, ds, hr', hsl⟩ := hst
      rw [hr] at hr'
      cases hr'
      have hd : cs.drop off = bs ++ 0 :: (cs.drop off).drop (bs ++ [0]).length := by
        have := List.take_append_drop (bs ++ [0]).length (cs.drop off)
        rw [slice] at hsl
        rw [hsl] at this
        simpa using this.symm
      have hz : 0 ∈ cs.drop off := by rw [hd]; simp
      simp only [Heap.readOptCString, Heap.readCString, hr, if_pos hz, if_neg hp,
        Option.map_some]
      rw [hd, takeWhile_append_zero]

/-! ## `getBufBackedString` and `encode` -/

section

variable [Runtime] {s s' : PState}

omit [Runtime] in
theorem utf8_length_pos {t : String} (h : ¬ utf8Length t = 0) : 0 < (utf8 t).length := by
  simp only [utf8Length] at h
  omega

theorem handleBadString_done {dflt : Option String} {msg : String} {sp : Span}
    (ok : BufOk s.heap s.bufs) (h : Command.handleBadString dflt msg s = .done sp s') :
    ∃ d, dflt = some d ∧ Grew s s' ∧ sp = { ptr := .lit d, len := utf8Length d } := by
  cases dflt with
  | none => exact (fail_done h).elim
  | some d => cases h; exact ⟨d, rfl, .refl ok, rfl⟩

/-- A text is the value's own, copied into a buffer, or without one the class's default string. -/
theorem getBufBackedString_cases (dflt : Option String) (v : Option Value) (nul : Bool) :
    (backedString dflt v = dflt.map utf8 ∧
      ∃ msg, Command.getBufBackedString dflt v nul = Command.handleBadString dflt msg) ∨
    ∃ t, 0 < (utf8 t).length ∧ backedString dflt v = some (utf8 t) ∧
      Command.getBufBackedString dflt v nul = (do
        let k ← PState.getBuffer (if nul then utf8Length t + 1 else utf8Length t)
        Prog.when (k = .null) (PState.record (.eMemory "Couldn't get buffer"))
        PState.writeBytes k (utf8 t)
        Prog.when nul (PState.writeBytes (Command.offset k (utf8Length t)) [0])
        pure { ptr := k, len := utf8Length t }) := by
  cases v with
  | none => exact .inl ⟨rfl, _, rfl⟩
  | some v =>
    unfold backedString Command.getBufBackedString
    simp only
    by_cases hkind : (!v.isString && !v.isNumber) = true
    · have htext : (v.isString || v.isNumber) = false := by
        rw [← Bool.not_or] at hkind
        simpa using hkind
      rw [if_pos hkind]
      exact .inl ⟨by simp [htext], _, rfl⟩
    have htext : (v.isString || v.isNumber) = true := by
      rw [← Bool.not_or, Bool.not_eq_true', Bool.not_eq_false] at hkind
      exact hkind
    rw [if_neg hkind]
    by_cases hlen : utf8Length v.toName = 0
    · have hempty : utf8 v.toName = [] := List.eq_nil_of_length_eq_zero hlen
      rw [if_pos hlen]
      exact .inl ⟨by simp [hempty], _, rfl⟩
    · have hpos := utf8_length_pos hlen
      have hne : utf8 v.toName ≠ [] := List.ne_nil_of_length_pos hpos
      rw [if_neg hlen]
      exact .inr ⟨v.toName, hpos, by simp [htext, hne], rfl⟩

/-- **A lowered string is stored**, with its NUL when one was asked for. -/
theorem getBufBackedString_done {dflt : Option String} {v : Option Value} {nul : Bool}
    {sp : Span} (ok : BufOk s.heap s.bufs)
    (h : Command.getBufBackedString dflt v nul s = .done sp s') :
    Grew s s' ∧ (∃ bs, backedString dflt v = some bs) ∧
      SpanHolds s'.heap s'.bufs sp (backedString dflt v) ∧
      (nul = true → CStrHolds s'.heap s'.bufs sp.ptr
        ((backedString dflt v).map (·.takeWhile (· ≠ 0)))) := by
  rcases getBufBackedString_cases dflt v nul with ⟨hbacked, msg, hbad⟩ | ⟨t, hpos, hbacked, hcopy⟩
  · rw [hbad] at h
    obtain ⟨d, rfl, g, rfl⟩ := handleBadString_done ok h
    rw [hbacked]
    exact ⟨g, ⟨_, rfl⟩, .inr ⟨utf8 d, rfl, by simp, rfl, rfl⟩,
      fun _ => .inr ⟨utf8 d, rfl, .inl ⟨d, rfl, rfl⟩⟩⟩
  · rw [hcopy] at h
    obtain ⟨k, s₁, hg, h⟩ := bind_eq_done.mp h
    obtain ⟨_, s₂, hwhen, h⟩ := bind_eq_done.mp h
    obtain ⟨_, s₃, hw, h⟩ := bind_eq_done.mp h
    obtain ⟨_, s₄, hz, h⟩ := bind_eq_done.mp h
    cases h
    have hk : k ≠ .null := by
      have hn : 0 < (if nul = true then utf8Length t + 1 else utf8Length t) := by
        split
        · exact Nat.succ_pos _
        · exact hpos
      obtain ⟨blk, off, rfl, _⟩ := getBuffer_done ok hn hg
      simp
    simp only [Prog.when, if_neg hk] at hwhen
    cases hwhen
    rw [hbacked]
    cases nul with
    | true =>
      obtain ⟨hp, g, hst, hst₀⟩ := storeNul_done ok hg hw (by simpa [Prog.when, utf8Length] using hz)
      exact ⟨g, ⟨_, rfl⟩, .inr ⟨_, rfl, hp, rfl, hst⟩,
        fun _ => .inr ⟨_, rfl, .inr ⟨hp, hst₀⟩⟩⟩
    | false =>
      simp only [Prog.when] at hz
      cases hz
      obtain ⟨hp, g, hst⟩ := store_done ok hpos (Nat.le_refl _) hg hw
      exact ⟨g, ⟨_, rfl⟩, .inr ⟨_, rfl, hp, rfl, hst⟩, fun hf => absurd hf (by simp)⟩

open ValueFormat

theorem encodeUtf8_done {v : Value} {e : Encoded} (ok : BufOk s.heap s.bufs)
    (h : encodeUtf8 v s = .done e s') :
    ∃ bs, encodingUtf8 v = some bs ∧ e.flags = Spec.utf8.flags ∧ Grew s s' ∧
      SpanHolds s'.heap s'.bufs { ptr := e.ptr, len := e.n } (some bs) := by
  cases v with
  | string t =>
    simp only [encodeUtf8] at h
    by_cases hlen : utf8Length t = 0
    · rw [if_pos hlen] at h
      cases h
      have ht : utf8 t = [] := List.eq_nil_of_length_eq_zero hlen
      exact ⟨_, rfl, rfl, .refl ok, .inr ⟨_, rfl, by simp, by simp [ht], ht⟩⟩
    · rw [if_neg hlen] at h
      obtain ⟨k, s₁, hg, h⟩ := bind_eq_done.mp h
      by_cases hk : k = .null
      · rw [if_pos hk] at h
        exact (fail_done h).elim
      · rw [if_neg hk] at h
        obtain ⟨_, s₂, hw, h⟩ := bind_eq_done.mp h
        cases h
        obtain ⟨hp, g, hst⟩ := store_done ok (utf8_length_pos hlen) (Nat.le_refl _) hg hw
        exact ⟨_, rfl, rfl, g, .inr ⟨_, rfl, hp, rfl, hst⟩⟩
  | _ => exact (fail_done h).elim

theorem encodeNodeBuffer_done {bs : List UInt8} {e : Encoded} (ok : BufOk s.heap s.bufs)
    (h : encodeNodeBuffer bs s = .done e s') :
    bs ≠ [] ∧ e.flags = Spec.raw.flags ∧ Grew s s' ∧
      SpanHolds s'.heap s'.bufs { ptr := e.ptr, len := e.n } (some bs) := by
  obtain ⟨k, s₁, hg, h⟩ := bind_eq_done.mp h
  by_cases hk : k = .null
  · rw [if_pos hk] at h
    exact (fail_done h).elim
  rw [if_neg hk] at h
  obtain ⟨_, s₂, hw, h⟩ := bind_eq_done.mp h
  cases h
  have hne : bs ≠ [] := by
    rintro rfl
    cases hg
    exact hk rfl
  obtain ⟨hp, g, hst⟩ := store_done ok (List.length_pos_iff.mpr hne) (Nat.le_refl _) hg hw
  exact ⟨hne, rfl, g, .inr ⟨_, rfl, hp, rfl, hst⟩⟩

theorem encodeAs_done {v : Value} {spec : Spec} {e : Encoded} (ok : BufOk s.heap s.bufs)
    (h : encodeAs v spec s = .done e s') :
    ∃ bs, encodingAs v spec = some (e.flags, bs) ∧ Grew s s' ∧
      SpanHolds s'.heap s'.bufs { ptr := e.ptr, len := e.n } (some bs) := by
  cases spec with
  | utf8 =>
    obtain ⟨bs, hbs, hfl, g, hsp⟩ := encodeUtf8_done ok h
    exact ⟨bs, by simp [encodingAs, hbs, hfl], g, hsp⟩
  | raw =>
    cases v with
    | buffer bs =>
      obtain ⟨hne, hfl, g, hsp⟩ := encodeNodeBuffer_done ok h
      exact ⟨_, by simp [encodingAs, hne, hfl], g, hsp⟩
    | _ =>
      obtain ⟨e', s₁, he, h⟩ := bind_eq_done.mp h
      cases h
      obtain ⟨bs, hbs, hfl, g, hsp⟩ := encodeUtf8_done ok he
      exact ⟨bs, by simp [encodingAs, hbs], g, hsp⟩
  | json =>
    simp only [encodeAs] at h
    cases hret : Runtime.jsonStringify v with
    | error ex =>
      rw [hret] at h
      exact (fail_done h).elim
    | ok ret =>
      rw [hret] at h
      obtain ⟨e', s₁, he, h⟩ := bind_eq_done.mp h
      cases h
      obtain ⟨bs, hbs, hfl, g, hsp⟩ := encodeUtf8_done ok he
      exact ⟨bs, by simp [encodingAs, hret, hbs], g, hsp⟩
  | _ => exact (fail_done h).elim

/-- **What `encode` leaves is the value's encoding.** -/
theorem encode_done {v : Option Value} {spec : Spec} {e : Encoded} (ok : BufOk s.heap s.bufs)
    (h : encode v spec s = .done e s') :
    ∃ w bs, v = some w ∧ encoding w spec = some (e.flags, bs) ∧ Grew s s' ∧
      SpanHolds s'.heap s'.bufs { ptr := e.ptr, len := e.n } (some bs) := by
  simp only [encode] at h
  by_cases hinv : spec = .invalid
  · rw [if_pos hinv] at h
    exact (fail_done h).elim
  rw [if_neg hinv] at h
  cases v with
  | none =>
    simp only at h
    split at h
    · exact (fail_done h).elim
    · cases h
  | some v =>
    obtain ⟨bs, hbs, g, hsp⟩ := encodeAs_done ok h
    exact ⟨v, bs, rfl, hbs, g, hsp⟩

end

end Proof

end Couchnode
