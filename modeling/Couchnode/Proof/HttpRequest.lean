import Couchnode.Proof.Endings
import Couchnode.Proof.Numbers

/-!
# What an HTTP request is validated for

The handler of an HTTP request looks at five options, and compares two numbers with bounds that are
one past the last number there is. So it takes the bound itself and negative numbers, and a
request without a path it does not turn down: it aborts (`http_validated_iff`).

A handler is walked forward here: `text_finishes` and `string_finishes` say that a text is put
into a buffer and where it lies then, with its NUL where one was asked for.
-/

set_option autoImplicit false

namespace Couchnode

namespace Proof

open Prog Command ParamSlot

variable [Runtime]

/-! ## Texts in buffers -/

section Buffers

variable {h₀ : Heap} {n : Nat} {reqs : List LcbReq} {s : PState} {p : CmdPtr} {c : LcbCmd}
  {t : String}

/-- A text that lies in memory, behind it a NUL if one was asked for. -/
structure TextAt (s : PState) (sp : Span) (t : String) (nul : Bool) : Prop where
  ptr : sp.ptr ≠ .null
  len : sp.len = utf8Length t
  text : Stored s.heap s.bufs sp.ptr (utf8 t)
  nul : nul = true → Stored s.heap s.bufs sp.ptr (utf8 t ++ [0])

omit [Runtime] in
theorem TextAt.mono {s' : PState} {sp : Span} {nul : Bool} (h : TextAt s sp t nul)
    (hs : Steady s s') : TextAt s' sp t nul :=
  ⟨h.ptr, h.len, hs _ _ h.text, fun hn => hs _ _ (h.nul hn)⟩

omit [Runtime] in
theorem utf8_pos (h : t ≠ "") : 0 < (utf8 t).length := by
  have hne : (utf8 t) ≠ [] := by
    intro hnil
    apply h
    apply String.toByteArray_inj.mp
    apply ByteArray.ext
    apply Array.ext'
    exact hnil
  exact List.length_pos_iff.mpr hne

omit [Runtime] in
theorem type_noMemory : NoMemory PState.htType := fun _ _ _ _ => rfl

omit [Runtime] in
/-- A text and a NUL are put into a buffer. -/
theorem storeNul_finishes (ok : BufOk s.heap s.bufs) (bs : List UInt8) :
    ∃ k s₁ s₂ s₃, PState.getBuffer (bs.length + 1) s = .done k s₁ ∧ k ≠ .null ∧
      PState.writeBytes k bs s₁ = .done () s₂ ∧
      PState.writeBytes (offset k bs.length) [0] s₂ = .done () s₃ := by
  obtain ⟨blk, off, h', b', hget, hok, _, hres, _⟩ := getBuffer_spec ok (Nat.succ_pos bs.length)
  obtain ⟨h'', hwrite, hok', hres', _⟩ := writeBytes_spec hok hres (Nat.le_succ _)
  have hlast : Reserved h'' b' blk (off + bs.length) 1 := hres'.sub (Nat.le_of_eq (by omega))
  have hone : ([0] : List UInt8).length ≤ 1 := Nat.le_refl 1
  obtain ⟨h₃, hnul, _⟩ := writeBytes_spec hok' hlast hone
  refine ⟨.inBlock blk off, { s with heap := h', bufs := b' }, { s with heap := h'', bufs := b' },
    { s with heap := h₃, bufs := b' }, ?_, by simp, ?_, ?_⟩
  · simp only [PState.getBuffer, hget]
  · simp only [PState.writeBytes, hwrite]
  · simp only [PState.writeBytes, offset, hnul]

/-- A text that is not empty is put into a buffer. -/
theorem text_finishes (ok : BufOk s.heap s.bufs) (dflt : Option String) (ht : t ≠ "")
    (nul : Bool) :
    ∃ sp s', getBufBackedString dflt (some (.string t)) nul s = .done sp s' ∧ Grew s s' ∧
      TextAt s' sp t nul ∧ s'.htType = s.htType := by
  have hpos := utf8_pos ht
  have hlen : ¬ utf8Length t = 0 := Nat.ne_of_gt hpos
  have hcopy : getBufBackedString dflt (some (.string t)) nul = (do
      let k ← PState.getBuffer (if nul then utf8Length t + 1 else utf8Length t)
      Prog.when (k = .null) (PState.record (.eMemory "Couldn't get buffer"))
      PState.writeBytes k (utf8 t)
      Prog.when nul (PState.writeBytes (offset k (utf8Length t)) [0])
      pure { ptr := k, len := utf8Length t }) := by
    unfold getBufBackedString
    simp only [Value.isString, Value.toName, Bool.not_true, Bool.false_and, Bool.false_eq_true,
      if_false]
    exact if_neg hlen
  have hwhen {k : CharPtr} (hk : k ≠ .null) (s : PState) :
      Prog.when (k = .null) (PState.record (.eMemory "Couldn't get buffer")) s = .done () s := by
    unfold Prog.when
    rw [if_neg hk]
    rfl
  rw [hcopy]
  cases nul with
  | true =>
    obtain ⟨k, s₁, s₂, s₃, hg, hk, hw, hz⟩ := storeNul_finishes ok (utf8 t)
    obtain ⟨hp, g, hst, hst₀⟩ := storeNul_done ok hg hw hz
    refine ⟨{ ptr := k, len := utf8Length t }, s₃, ?_, g, ⟨hp, rfl, hst, fun _ => hst₀⟩, ?_⟩
    swap
    · rw [type_noMemory.writeBytes _ _ _ _ _ hz, type_noMemory.writeBytes _ _ _ _ _ hw,
        type_noMemory.getBuffer _ _ _ _ hg]
    have hg : PState.getBuffer (if true = true then utf8Length t + 1 else utf8Length t) s =
      .done k s₁ := hg
    have hz : Prog.when (true = true) (PState.writeBytes (offset k (utf8Length t)) [0]) s₂ =
      .done () s₃ := hz
    rw [bind_of_done hg, bind_of_done (hwhen hk s₁), bind_of_done hw, bind_of_done hz]
    rfl
  | false =>
    obtain ⟨k, s₁, s₂, hg, hk, hw⟩ := store_finishes ok hpos
    obtain ⟨hp, g, hst⟩ := store_done ok hpos (Nat.le_refl _) hg hw
    refine ⟨{ ptr := k, len := utf8Length t }, s₂, ?_, g,
      ⟨hp, rfl, hst, fun h => absurd h Bool.false_ne_true⟩, ?_⟩
    swap
    · rw [type_noMemory.writeBytes _ _ _ _ _ hw, type_noMemory.getBuffer _ _ _ _ hg]
    have hg : PState.getBuffer (if false = true then utf8Length t + 1 else utf8Length t) s =
      .done k s₁ := hg
    have hz : Prog.when (false = true) (PState.writeBytes (offset k (utf8Length t)) [0]) s₂ =
      .done () s₂ := rfl
    rw [bind_of_done hg, bind_of_done (hwhen hk s₁), bind_of_done hw, bind_of_done hz]
    rfl

/-- **One string of a request**: into a buffer, and its pointer into the command. -/
theorem string_finishes (hb : Building h₀ n reqs p c s) (ht : t ≠ "") (nul : Bool)
    (f : Span → LcbCmd → LcbCmd) :
    ∃ sp s', HttpCommand.string (some (.string t)) nul p f s = .done () s' ∧
      Building h₀ n reqs p (f sp c) s' ∧ Steady s s' ∧ TextAt s' sp t nul ∧
      s'.htType = s.htType := by
  obtain ⟨sp, s₁, hget, g, htext, htype⟩ := text_finishes hb.1.bufs (some "") ht nul
  obtain ⟨s₂, hassign, _⟩ := assign_finishes (hb.grew g) (f sp)
  obtain ⟨hb₂, hst⟩ := assign_done (hb.grew g) hassign
  refine ⟨sp, s₂, ?_, hb₂, g.steady.trans hst, htext.mono hst, ?_⟩
  · unfold HttpCommand.string
    rw [bind_of_done hget]
    exact hassign
  · rw [type_noMemory.assign _ _ _ _ _ hassign, htype]

/-- The slot of a string option: the text is there when the option counts as given. -/
structure SlotText (slot : Slot (Option Value)) (t : Option String) : Prop where
  given : HttpCommand.given slot = t.isSome
  text : ∀ x, t = some x → slot.v = some (.string x) ∧ x ≠ ""

/-- A string of a request that may be missing. -/
theorem maybeString_finishes {slot : Slot (Option Value)} {t : Option String}
    (hb : Building h₀ n reqs p c s) (hslot : SlotText slot t) (nul : Bool)
    (f : Span → LcbCmd → LcbCmd) :
    ∃ sp s', Prog.when (HttpCommand.given slot) (HttpCommand.string slot.v nul p f) s =
        .done () s' ∧
      Building h₀ n reqs p (if t.isSome then f sp c else c) s' ∧ Steady s s' ∧
      (∀ x, t = some x → TextAt s' sp x nul) ∧ s'.htType = s.htType := by
  unfold Prog.when
  rw [hslot.given]
  cases ht : t with
  | none => exact ⟨{}, s, rfl, hb, fun _ _ hs => hs, nofun, rfl⟩
  | some x =>
    obtain ⟨hv, hx⟩ := hslot.text x ht
    obtain ⟨sp, s', hs, hb', hst, htext, htype⟩ := string_finishes hb hx nul f
    rw [hv]
    refine ⟨sp, s', hs, hb', hst, fun y hy => ?_, htype⟩
    cases hy
    exact htext

/-- A command with the texts of a request: the content type is a C string. -/
structure HasTexts (s : PState) (cmd : LcbCmd) (path contentType content : Option String) : Prop
    where
  path : ∃ t, path = some t ∧ TextAt s cmd.path t false
  contentType : (contentType = none ∧ cmd.contentType = .null) ∨
    ∃ t, contentType = some t ∧ TextAt s { ptr := cmd.contentType, len := utf8Length t } t true
  content : (content = none ∧ cmd.bytes = {}) ∨
    ∃ t, content = some t ∧ TextAt s cmd.bytes t false

/-- **The strings of a request**: the path, the content type and the body. -/
theorem strings_finish {o : HttpOptions} {path : String} {contentType content : Option String}
    (hb : Building h₀ n reqs p c s) (hct : c.contentType = .null) (hbytes : c.bytes = {})
    (hpath : SlotText o.path (some path)) (htype : SlotText o.contentType contentType)
    (hcontent : SlotText o.content content) :
    ∃ cmd s', HttpCommand.strings o p s = .done () s' ∧ Building h₀ n reqs p cmd s' ∧
      HasTexts s' cmd (some path) contentType content ∧ cmd.nums = c.nums ∧
      s'.htType = s.htType := by
  obtain ⟨hv, hne⟩ := hpath.text path rfl
  obtain ⟨sp, s₁, h₁, hb₁, hs₁, ht₁, hty₁⟩ :=
    string_finishes hb hne false fun sp c => { c with path := sp }
  obtain ⟨sp', s₂, h₂, hb₂, hs₂, ht₂, hty₂⟩ :=
    maybeString_finishes hb₁ htype true fun sp c => { c with contentType := sp.ptr }
  obtain ⟨sp'', s₃, h₃, hb₃, hs₃, ht₃, hty₃⟩ :=
    maybeString_finishes hb₂ hcontent false fun sp c => { c with bytes := sp }
  refine ⟨_, s₃, ?_, hb₃, ?_, ?_, hty₃.trans (hty₂.trans hty₁)⟩
  · unfold HttpCommand.strings
    rw [hpath.given, hv]
    show (HttpCommand.string _ false p _ >>= _) s = _
    rw [bind_of_done h₁, bind_of_done h₂]
    exact h₃
  · constructor
    · refine ⟨path, rfl, ?_⟩
      cases contentType <;> cases content <;> exact ht₁.mono (hs₂.trans hs₃)
    · cases contentType with
      | none =>
        left
        cases content <;> exact ⟨rfl, hct⟩
      | some t =>
        right
        have htext := (ht₂ t rfl).mono hs₃
        have hspan : { ptr := sp'.ptr, len := utf8Length t } = sp' := by rw [← htext.len]
        refine ⟨t, rfl, ?_⟩
        rw [← hspan] at htext
        cases content <;> exact htext
    · cases content with
      | none =>
        left
        cases contentType <;> exact ⟨rfl, hbytes⟩
      | some t => exact .inr ⟨t, rfl, ht₃ t rfl⟩
  · cases contentType <;> cases content <;> rfl

end Buffers

/-! ## The handler -/

section Handler

variable {h₀ : Heap} {n : Nat} {reqs : List LcbReq} {s : PState} {p : CmdPtr} {c : LcbCmd}
  {o : HttpOptions}

/-- The method of the options is one the handler takes. -/
def methodTaken (o : HttpOptions) : Bool :=
  !o.httpMethod.isFound || decide (o.httpMethod.v ≤ LCB_HTTP_METHOD_MAX)

/-- So is the type. -/
def typeTaken (o : HttpOptions) : Bool :=
  o.httpType.isFound && decide (o.httpType.v ≤ LCB_HTTP_TYPE_MAX)

omit [Runtime] in
theorem valid_eq (o : HttpOptions) :
    HttpCommand.valid o = (HttpCommand.given o.path && typeTaken o && methodTaken o) := by
  unfold HttpCommand.valid typeTaken methodTaken
  rw [Bool.and_assoc (HttpCommand.given o.path)]

theorem method_finishes (hb : Building h₀ n reqs p c s) (h : methodTaken o = true) :
    ∃ s', HttpCommand.method o p s = .done () s' ∧ Building h₀ n reqs p
      { c with nums := { c.nums with method := HttpCommand.methodOf o } } s' := by
  obtain ⟨s', hs, hb'⟩ := assign_finishes hb
    fun c => { c with nums := { c.nums with method := HttpCommand.methodOf o } }
  refine ⟨s', ?_, hb'⟩
  rw [← hs]
  unfold HttpCommand.method HttpCommand.methodOf
  unfold methodTaken at h
  cases hf : o.httpMethod.isFound with
  | false => rfl
  | true =>
    have hle : ¬ o.httpMethod.v > LCB_HTTP_METHOD_MAX := by
      rw [hf] at h
      simpa using h
    simp only [Bool.not_true, Bool.false_eq_true, if_false, if_neg hle, if_true]

theorem method_refuses (h : methodTaken o = false) (p : CmdPtr) (s : PState) :
    ∃ s', HttpCommand.method o p s = .refused s' := by
  unfold methodTaken at h
  obtain ⟨hf, hle⟩ := Bool.or_eq_false_iff.mp h
  have hgt : o.httpMethod.v > LCB_HTTP_METHOD_MAX := by simpa using hle
  unfold HttpCommand.method
  rw [hf, if_neg Bool.false_ne_true, if_pos hgt]
  exact ⟨_, rfl⟩

theorem type_finishes (h : typeTaken o = true) (s : PState) :
    HttpCommand.type o s = .done () { s with htType := o.httpType.v } := by
  unfold typeTaken at h
  obtain ⟨hf, hle⟩ := Bool.and_eq_true_iff.mp h
  have hngt : ¬ o.httpType.v > LCB_HTTP_TYPE_MAX := by simpa using hle
  unfold HttpCommand.type
  rw [hf]
  simp only [Bool.not_true, Bool.false_eq_true, if_false, if_neg hngt]
  rfl

theorem type_refuses (h : typeTaken o = false) (s : PState) :
    ∃ s', HttpCommand.type o s = .refused s' := by
  unfold typeTaken at h
  unfold HttpCommand.type
  cases hf : o.httpType.isFound with
  | false => exact ⟨_, rfl⟩
  | true =>
    have hgt : o.httpType.v > LCB_HTTP_TYPE_MAX := by
      rw [hf] at h
      simpa using h
    rw [Bool.not_true, if_neg Bool.false_ne_true, if_pos hgt]
    exact ⟨_, rfl⟩

theorem strings_refuse (h : HttpCommand.given o.path = false) (p : CmdPtr) (s : PState) :
    ∃ s', HttpCommand.strings o p s = .refused s' := by
  unfold HttpCommand.strings
  rw [h]
  exact ⟨_, rfl⟩

variable {hd : Header HttpOptions} {ck : CommandKey} {params : Option Value}

/-- The handler for the first key, step by step. -/
theorem handler_steps (hl : Lowered h₀ 1 [] s) :
    ∃ p s₁, Building h₀ 1 [] p {} s₁ ∧ HttpCommand.handleSingle hd ck params 0 s =
      (if !hd.globalOptions.path.isFound then Prog.fault
        else do
          HttpCommand.method hd.globalOptions p
          HttpCommand.type hd.globalOptions
          HttpCommand.strings hd.globalOptions p) s₁ := by
  obtain ⟨p, s₁, hget, hb⟩ := getAt_finishes hl Nat.zero_lt_one
  refine ⟨p, s₁, hb, ?_⟩
  have hget : PState.getAt 0 s = .done p s₁ := hget
  unfold HttpCommand.handleSingle
  simp only [ne_eq, not_true_eq_false, if_false]
  rw [bind_of_done hget]

/-- Without a path it aborts. -/
theorem handler_fault (hl : Lowered h₀ 1 [] s) (h : hd.globalOptions.path.isFound = false) :
    HttpCommand.handleSingle hd ck params 0 s = .fault := by
  obtain ⟨p, s₁, _, hrun⟩ := @handler_steps _ h₀ s hd ck params hl
  rw [hrun, h]
  rfl

/-- With one it turns a request down that is not valid. -/
theorem handler_refuses (hl : Lowered h₀ 1 [] s) (hpath : hd.globalOptions.path.isFound = true)
    (h : HttpCommand.valid hd.globalOptions = false) :
    ∃ s', HttpCommand.handleSingle hd ck params 0 s = .refused s' := by
  obtain ⟨p, s₁, hb, hrun⟩ := @handler_steps _ h₀ s hd ck params hl
  rw [hrun, hpath]
  simp only [Bool.not_true, Bool.false_eq_true, if_false]
  rw [valid_eq] at h
  cases hm : methodTaken hd.globalOptions with
  | false =>
    obtain ⟨s₂, hs⟩ := method_refuses hm p s₁
    exact ⟨s₂, bind_of_refused hs⟩
  | true =>
    obtain ⟨s₂, hs, _⟩ := method_finishes hb hm
    rw [bind_of_done hs]
    cases ht : typeTaken hd.globalOptions with
    | false =>
      obtain ⟨s₃, hs₃⟩ := type_refuses ht s₂
      exact ⟨s₃, bind_of_refused hs₃⟩
    | true =>
      rw [bind_of_done (type_finishes ht s₂)]
      apply strings_refuse
      rw [hm, ht, Bool.and_true, Bool.and_true] at h
      exact h

/-- **And makes the command of one that is.** -/
theorem handler_finishes {path : String} {contentType content : Option String}
    (hl : Lowered h₀ 1 [] s) (hfound : hd.globalOptions.path.isFound = true)
    (hm : methodTaken hd.globalOptions = true) (ht : typeTaken hd.globalOptions = true)
    (hpath : SlotText hd.globalOptions.path (some path))
    (hct : SlotText hd.globalOptions.contentType contentType)
    (hcontent : SlotText hd.globalOptions.content content) :
    ∃ p cmd s', HttpCommand.handleSingle hd ck params 0 s = .done () s' ∧
      Building h₀ 1 [] p cmd s' ∧ HasTexts s' cmd (some path) contentType content ∧
      cmd.nums.method = HttpCommand.methodOf hd.globalOptions ∧
      s'.htType = hd.globalOptions.httpType.v := by
  obtain ⟨p, s₁, hb, hrun⟩ := @handler_steps _ h₀ s hd ck params hl
  obtain ⟨s₂, hs₂, hb₂⟩ := method_finishes hb hm
  have hs₃ := type_finishes ht s₂
  have hb₃ : Building h₀ 1 [] p _ { s₂ with htType := hd.globalOptions.httpType.v } :=
    ⟨hb₂.1.congr rfl rfl rfl, hb₂.2⟩
  obtain ⟨cmd, s₄, hs₄, hb₄, htexts, hnums, htype⟩ :=
    strings_finish hb₃ rfl rfl hpath hct hcontent
  refine ⟨p, cmd, s₄, ?_, hb₄, htexts, ?_, htype⟩
  · rw [hrun, hfound]
    simp only [Bool.not_true, Bool.false_eq_true, if_false]
    rw [bind_of_done hs₂, bind_of_done hs₃]
    exact hs₄
  · rw [hnums]

end Handler

/-! ## The options -/

section Options

variable {ps : Props} {name : String} {o : HttpOptions}

/-- The text of a string option, if it has one. -/
def textOf (ps : Props) (name : String) : Option String :=
  match ps.lookup name with
  | some (.string t) => if t = "" then none else some t
  | _ => none

/-- A numeric option that does not count: absent, or `undefined`, `null` or `false`. -/
def Absent (ps : Props) (name : String) : Prop := (ps.lookup name).all maybeSetFalse = true

/-- The integer of a numeric option, if it has one. -/
def integerOf (ps : Props) (name : String) : Option Int := intOf (ps.lookup name)

/-- The string options are strings. -/
def StringsOf (ps : Props) : Prop :=
  ∀ name ∈ [NameMap.httpPath, NameMap.httpContent, NameMap.httpContentType, NameMap.hashkey],
    ∀ v, ps.lookup name = some v → ∃ t, v = .string t

/-- A numeric option that is absent or a number of 32 bits. -/
def Numeric (ps : Props) (name : String) : Prop :=
  Absent ps name ∨ ∃ i, integerOf ps name = some i ∧ InRange .int32 i

/-- What was read of a string option. -/
def textSlot (found : Option Value) : Slot (Option Value) :=
  { status := if found.isSome then .found else .empty, v := found }

theorem read_text (h : ∀ v, ps.lookup name = some v → ∃ t, v = .string t) :
    readSlot StringOption.parseValue (ps.lookup name) { v := none } =
      .ok (textSlot (ps.lookup name)) := by
  cases hl : ps.lookup name with
  | none => rfl
  | some v =>
    obtain ⟨t, rfl⟩ := h v hl
    rfl

omit [Runtime] in
theorem textSlot_text (h : ∀ v, ps.lookup name = some v → ∃ t, v = .string t) :
    SlotText (textSlot (ps.lookup name)) (textOf ps name) := by
  unfold textOf
  cases hl : ps.lookup name with
  | none => exact ⟨rfl, nofun⟩
  | some v =>
    obtain ⟨t, rfl⟩ := h v hl
    by_cases ht : t = ""
    · subst ht
      exact ⟨rfl, nofun⟩
    · simp only [if_neg ht]
      constructor
      · show (true && decide (t ≠ "")) = true
        rw [decide_eq_true ht]
        rfl
      · intro x hx
        cases hx
        exact ⟨rfl, ht⟩

omit [Runtime] in
/-- What counts, and is not a number, is turned down. -/
theorem read_other_iff {t : IntType} {v : Value}
    (hbad : ∀ s, NumericSlot.parseValue t v { v := 0 } ≠ .ok s) (hcounts : maybeSetFalse v = false)
    (hint : intOf (some v) = none) :
    (∃ s, NumericSlot.parseValue t v { v := 0 } = .ok s) ↔
      (some v).all maybeSetFalse = true ∨ ∃ i, intOf (some v) = some i ∧ InRange t i := by
  apply iff_of_false
  · rintro ⟨s, hs⟩
    exact hbad s hs
  · rintro (hf | ⟨i, hi, _⟩)
    · rw [Option.all_some, hcounts] at hf
      cases hf
    · rw [hint] at hi
      cases hi

omit [Runtime] in
/-- **A numeric slot takes what does not count, and the numbers of its type.** -/
theorem read_number_iff {t : IntType} (ht : t ≠ .uint64) (found : Option Value) :
    (∃ s, readSlot (NumericSlot.parseValue t) found { v := 0 } = .ok s) ↔
      found.all maybeSetFalse = true ∨ ∃ i, intOf found = some i ∧ InRange t i := by
  cases found with
  | none => exact iff_of_true ⟨_, rfl⟩ (.inl rfl)
  | some v =>
    show (∃ s, NumericSlot.parseValue t v { v := 0 } = .ok s) ↔ _
    cases v with
    | number n =>
      by_cases hr : InRange t n.integerValue ∨ t = .uint64
      · exact iff_of_true ⟨_, parse_number hr _⟩
          (.inr ⟨n.integerValue, rfl, hr.resolve_right ht⟩)
      · apply iff_of_false
        · rintro ⟨s, hs⟩
          rw [parse_overflow hr] at hs
          cases hs
        · rintro (hf | ⟨i, hi, hrange⟩)
          · cases hf
          · cases hi
            exact hr (.inl hrange)
    | undefined | null => exact iff_of_true ⟨_, rfl⟩ (.inl rfl)
    | bool b =>
      cases b with
      | false => exact iff_of_true ⟨_, rfl⟩ (.inl rfl)
      | true => exact read_other_iff nofun rfl rfl
    | _ => exact read_other_iff nofun rfl rfl

/-- The five slots, one after the other. -/
theorem http_parsed {look : String → Option Value} :
    parseWith look HttpOptions.specs {} = .ok o ↔
      readSlot StringOption.parseValue (look NameMap.httpPath) { v := none } = .ok o.path ∧
      readSlot StringOption.parseValue (look NameMap.httpContent) { v := none } = .ok o.content ∧
      readSlot StringOption.parseValue (look NameMap.httpContentType) { v := none } =
        .ok o.contentType ∧
      readSlot int32 (look NameMap.httpMethod) { v := 0 } = .ok o.httpMethod ∧
      readSlot int32 (look NameMap.httpType) { v := 0 } = .ok o.httpType := by
  constructor
  · intro h
    obtain ⟨path, hpath, h⟩ := (parseWith_field rfl).mp h
    obtain ⟨content, hcontent, h⟩ := (parseWith_field rfl).mp h
    obtain ⟨contentType, hct, h⟩ := (parseWith_field rfl).mp h
    obtain ⟨method, hmethod, h⟩ := (parseWith_field rfl).mp h
    obtain ⟨type, htype, h⟩ := (parseWith_field rfl).mp h
    cases h
    exact ⟨hpath, hcontent, hct, hmethod, htype⟩
  · rintro ⟨hpath, hcontent, hct, hmethod, htype⟩
    refine (parseWith_field rfl).mpr ⟨o.path, hpath, ?_⟩
    refine (parseWith_field rfl).mpr ⟨o.content, hcontent, ?_⟩
    refine (parseWith_field rfl).mpr ⟨o.contentType, hct, ?_⟩
    refine (parseWith_field rfl).mpr ⟨o.httpMethod, hmethod, ?_⟩
    exact (parseWith_field rfl).mpr ⟨o.httpType, htype, rfl⟩

/-- What is looked up in an object, for names that are not inherited. -/
theorem parseAll_lookup {O : Type} {specs : List (ParamSlot O)}
    (hspecs : ∀ name ∈ specs.map ParamSlot.name, inheritedProperty name = none) (ps : Props)
    (o : O) :
    parseAll (some (.object ps)) specs o = parseWith (fun name => ps.lookup name) specs o := by
  have hobject : OptionsObject (some (.object ps)) := by
    intro d hd hobj
    cases hd
    cases hobj
  rw [parseAll_eq hobject]
  refine parseWith_congr (fun sp hsp => ?_) o
  exact optionOf_object (hspecs sp.name (List.mem_map_of_mem hsp))

theorem http_parseAll (ps : Props) :
    parseAll (some (.object ps)) HttpOptions.specs {} =
      parseWith (fun name => ps.lookup name) HttpOptions.specs {} := by
  apply parseAll_lookup
  show ∀ name ∈ [NameMap.httpPath, NameMap.httpContent, NameMap.httpContentType,
    NameMap.httpMethod, NameMap.httpType], inheritedProperty name = none
  decide

/-- The options record of some options. -/
structure HttpRead (ps : Props) (o : HttpOptions) : Prop where
  found : o.path.isFound = (ps.lookup NameMap.httpPath).isSome
  path : SlotText o.path (textOf ps NameMap.httpPath)
  contentType : SlotText o.contentType (textOf ps NameMap.httpContentType)
  content : SlotText o.content (textOf ps NameMap.httpContent)
  method : Taken .int32 (ps.lookup NameMap.httpMethod) o.httpMethod
  type : Taken .int32 (ps.lookup NameMap.httpType) o.httpType

theorem http_read (hps : StringsOf ps)
    (h : parseAll (some (.object ps)) HttpOptions.specs {} = .ok o) : HttpRead ps o := by
  rw [http_parseAll] at h
  obtain ⟨hpath, hcontent, hct, hmethod, htype⟩ := http_parsed.mp h
  have htext (name : String) (hname : name ∈ [NameMap.httpPath, NameMap.httpContent,
      NameMap.httpContentType, NameMap.hashkey]) (slot : Slot (Option Value))
      (hs : readSlot StringOption.parseValue (ps.lookup name) { v := none } = .ok slot) :
      slot = textSlot (ps.lookup name) := by
    rw [read_text (hps name hname)] at hs
    exact (Parsed.ok.inj hs).symm
  refine ⟨?_, ?_, ?_, ?_, taken_of_read hmethod, taken_of_read htype⟩
  · rw [htext _ (by decide) _ hpath]
    cases ps.lookup NameMap.httpPath <;> rfl
  · rw [htext _ (by decide) _ hpath]
    exact textSlot_text (hps _ (by decide))
  · rw [htext _ (by decide) _ hct]
    exact textSlot_text (hps _ (by decide))
  · rw [htext _ (by decide) _ hcontent]
    exact textSlot_text (hps _ (by decide))

/-- Options are parsed when the numbers are numbers. -/
theorem http_parses_iff (hps : StringsOf ps) :
    (∃ o, parseAll (some (.object ps)) HttpOptions.specs {} = .ok o) ↔
      Numeric ps NameMap.httpMethod ∧ Numeric ps NameMap.httpType := by
  rw [http_parseAll]
  unfold Numeric Absent integerOf
  have hnumber (name : String) : (∃ s, readSlot int32 (ps.lookup name) { v := 0 } = .ok s) ↔ _ :=
    read_number_iff (t := .int32) nofun (ps.lookup name)
  rw [← hnumber, ← hnumber]
  constructor
  · rintro ⟨o, h⟩
    obtain ⟨_, _, _, hmethod, htype⟩ := http_parsed.mp h
    exact ⟨⟨_, hmethod⟩, ⟨_, htype⟩⟩
  · rintro ⟨⟨method, hmethod⟩, ⟨type, htype⟩⟩
    refine ⟨{ path := _, content := _, contentType := _, httpMethod := method, httpType := type },
      http_parsed.mpr ⟨read_text (hps _ (by decide)), read_text (hps _ (by decide)),
        read_text (hps _ (by decide)), hmethod, htype⟩⟩

omit [Runtime] in
theorem numeric_sound (t : IntType) (v : Value) (s : Slot Int) :
    NumericSlot.parseValue t v s ≠ .fault := by
  unfold NumericSlot.parseValue
  split
  · exact nofun
  · split
    · simp only
      split <;> exact nofun
    · exact nofun

theorem http_sound (ps : Props) : parseAll (some (.object ps)) HttpOptions.specs {} ≠ .fault := by
  apply parseAll_sound
  intro sp hsp
  simp only [HttpOptions.specs, List.mem_cons, List.not_mem_nil, or_false] at hsp
  rcases hsp with rfl | rfl | rfl | rfl | rfl
  · exact field_sound string_sound
  · exact field_sound string_sound
  · exact field_sound string_sound
  · exact field_sound (numeric_sound _)
  · exact field_sound (numeric_sound _)

/-- The options every command has are in order. -/
theorem common_parses (hps : StringsOf ps) :
    ∃ common, parseAll (some (.object ps)) commonSlots {} = .ok common := by
  have hlookup : parseAll (some (.object ps)) commonSlots {} =
      parseWith (fun name => ps.lookup name) commonSlots {} := by
    apply parseAll_lookup
    show ∀ name ∈ [NameMap.spooled, NameMap.hashkey], inheritedProperty name = none
    decide
  have hspooled : ∃ s, readSlot BooleanOption.parseValue (ps.lookup NameMap.spooled)
      { v := false } = .ok s := by
    cases ps.lookup NameMap.spooled <;> exact ⟨_, rfl⟩
  obtain ⟨spooled, hspooled⟩ := hspooled
  rw [hlookup]
  refine ⟨{ isSpooled := spooled, globalHashkey := textSlot (ps.lookup NameMap.hashkey) }, ?_⟩
  refine (parseWith_field rfl).mpr ⟨spooled, hspooled, ?_⟩
  exact (parseWith_field rfl).mpr ⟨_, read_text (hps _ (by decide)), rfl⟩

end Options

/-! ## The whole request -/

section Request

variable {ps : Props} {key : Value} {id : Nat} {h : Heap} {o : HttpOptions}

/-- The arguments of a request: a key there is one of, the options and the callback. -/
abbrev httpArgs (key : Value) (ps : Props) (id : Nat) : List Value :=
  [key, .object ps, .function id]

/-- Options that cannot be parsed are turned down. -/
theorem http_unparsed (hnone : ∀ o, parseAll (some (.object ps)) HttpOptions.specs {} ≠ .ok o) :
    ∃ st, accept HttpCommand (httpArgs key ps id) (Command.start h) = .refused st := by
  have hparse : (parseAll (some (.object ps)) HttpOptions.specs {}).toOption = none := by
    cases hp : parseAll (some (.object ps)) HttpOptions.specs {} with
    | ok o => exact absurd hp (hnone o)
    | bad o c => rfl
    | fault => rfl
  obtain ⟨s₁, hs₁⟩ := initCommandList_finishes Nat.zero_lt_one h
  obtain ⟨s₂, hs₂⟩ := parse_refuses hparse (http_sound ps) s₁
  have hs₁ : initCommandList (HttpCommand.listSize (KeysInfo.setKeys key)) (Command.start h) =
    .done () s₁ := hs₁
  have hs₂ : parseParams HttpCommand (.object ps) s₁ = .refused s₂ := hs₂
  have hinit : initializeCommand HttpCommand (httpArgs key ps id) (Command.start h) =
      .refused s₂ := (bind_of_done hs₁).trans (bind_of_refused hs₂)
  exact ⟨s₂, bind_of_refused hinit⟩

theorem http_header (hps : StringsOf ps)
    (hparse : parseAll (some (.object ps)) HttpOptions.specs {} = .ok o) :
    ∃ hd, header HttpCommand (httpArgs key ps id) = some hd ∧ hd.globalOptions = o := by
  obtain ⟨common, hcommon⟩ := common_parses hps
  have hopts : callOptions HttpCommand (httpArgs key ps id) = some o := by
    show (parseAll (some (.object ps)) HttpOptions.specs {}).toOption = _
    rw [hparse]
    rfl
  have hcommon : (parseAll (some (arg (httpArgs key ps id) 1)) commonSlots {}).toOption =
      some common := by
    show (parseAll (some (.object ps)) commonSlots {}).toOption = _
    rw [hcommon]
    rfl
  have hsome : (header HttpCommand (httpArgs key ps id)).isSome = true := by
    unfold header
    rw [hopts, hcommon]
    rfl
  obtain ⟨hd, hh⟩ := Option.isSome_iff_exists.mp hsome
  obtain ⟨o', ho', hglob⟩ := header_options hh
  cases hopts.symm.trans ho'
  exact ⟨hd, hh, hglob⟩

/-- **A request whose options were parsed is up to its handler.** -/
theorem http_reaches (hkey : key.isObject = false) (hps : StringsOf ps)
    (hparse : parseAll (some (.object ps)) HttpOptions.specs {} = .ok o) :
    ∃ hd ck s, hd.globalOptions = o ∧ Lowered h 1 [] s ∧
      accept HttpCommand (httpArgs key ps id) (Command.start h) =
        (HttpCommand.handleSingle hd ck none 0 >>= fun _ => pure hd) s := by
  obtain ⟨hd, hh, hglob⟩ := @http_header _ ps key id o hps hparse
  obtain ⟨s₁, hi⟩ := header_initialize hh Nat.zero_lt_one h
  obtain ⟨hkeys, _, _, hl⟩ := initialize_done hi
  have hl : Lowered h 1 [] s₁ := hl
  have hsingle : hd.keys = { keys := some key, kcollType := .singleKey, ncmds := 1 } := by
    rw [hkeys]
    show KeysInfo.setKeys key = _
    cases key <;> first | rfl | cases hkey
  have hbacked (v : Option Value) : ∃ bs, backedString (some "") v = some bs := by
    rcases getBufBackedString_cases (some "") v false with ⟨hb, _⟩ | ⟨t, _, hb, _⟩
    · exact ⟨utf8 "", hb⟩
    · exact ⟨utf8 t, hb⟩
  have hhash : ∃ hashkey, hashkeyText HttpCommand hd none = some hashkey := by
    unfold hashkeyText
    show ∃ hashkey, (if hd.globalHashkey.isFound then _ else _) = some hashkey
    by_cases hf : hd.globalHashkey.isFound
    · obtain ⟨bs, hbs⟩ := hbacked hd.globalHashkey.v
      exact ⟨some bs, by
        rw [if_pos hf]
        show (backedString (some "") hd.globalHashkey.v).map some = _
        rw [hbs]
        rfl⟩
    · exact ⟨none, if_neg hf⟩
  obtain ⟨hashkey, hhash⟩ := hhash
  obtain ⟨bs, hbs⟩ := hbacked (some key)
  let item : Option Value × Option Value := (some key, none)
  have hhash : hashkeyText HttpCommand hd item.2 = some hashkey := hhash
  have hbs : backedString HttpCommand.getDefaultString item.1 = some bs := hbs
  obtain ⟨hsp, _, ksp, s₂, _, _, hl₂, hreach⟩ := single_reaches hl hhash hbs
  refine ⟨hd, { object := key, key := ksp, hashkey := hsp }, s₂, hglob, hl₂, ?_⟩
  unfold accept
  rw [bind_of_done hi]
  have hprocess : process HttpCommand hd = processSingle HttpCommand hd (some key) none 0 := by
    unfold process
    rw [hsingle]
  have hrun : process HttpCommand hd s₁ = HttpCommand.handleSingle hd
      { object := key, key := ksp, hashkey := hsp } none 0 s₂ := by
    rw [hprocess]
    exact hreach 0
  show (process HttpCommand hd >>= fun _ => pure hd) s₁ = _
  rw [bind_run, bind_run]
  unfold andThen
  rw [hrun]

/-- What is asked of the options: a path, a type there is, and no method or one there is. -/
structure Admissible (ps : Props) : Prop where
  path : (textOf ps NameMap.httpPath).isSome
  type : ∃ t, integerOf ps NameMap.httpType = some t ∧ 0 ≤ t ∧ t < LCB_HTTP_TYPE_MAX
  method : Absent ps NameMap.httpMethod ∨
    ∃ m, integerOf ps NameMap.httpMethod = some m ∧ 0 ≤ m ∧ m < LCB_HTTP_METHOD_MAX

/-- A text that can be read where a span points, and none where there is none. -/
def Points (h : Heap) (sp : Span) (t : Option String) : Prop := h.readSpan sp = some (t.map utf8)

/-- A C string with a text: its bytes and a NUL. -/
def PointsNul (h : Heap) (p : CharPtr) : Option String → Prop
  | none => p = .null
  | some t => h.readBytes p (utf8Length t + 1) = some (utf8 t ++ [0])

/-- The command that libcouchbase gets has what the options say. -/
structure Carries (ps : Props) (hd : Header HttpOptions) (st : PState) : Prop where
  type : integerOf ps NameMap.httpType = some st.htType
  cmd : ∃ p cmd, (ofState hd st).pointers HttpCommand st.heap = some [p] ∧
    st.commands.deref p st.heap = some cmd ∧
    Points st.heap cmd.path (textOf ps NameMap.httpPath) ∧
    cmd.nums.method = (integerOf ps NameMap.httpMethod).getD LCB_HTTP_METHOD_GET ∧
    Points st.heap cmd.bytes (textOf ps NameMap.httpContent) ∧
    PointsNul st.heap cmd.contentType (textOf ps NameMap.httpContentType)

/-- **Exact validation**: an admissible request is accepted and carries its options, every other
    one is turned down with an error. -/
def HttpValidated (ps : Props) (args : List Value) (h : Heap) : Prop :=
  (Admissible ps → ∃ hd st, accept HttpCommand args (Command.start h) = .done hd st ∧
    Carries ps hd st) ∧
  (¬ Admissible ps → ∃ st, accept HttpCommand args (Command.start h) = .refused st ∧
    st.err.isSet = true)

/-- When it is: the numbers cannot be parsed; or there is a path, and if it is not empty and the
    numbers are within the bounds of the handler, then they are within those of libcouchbase. -/
def Bounded (ps : Props) : Prop :=
  Numeric ps NameMap.httpMethod → Numeric ps NameMap.httpType →
    (ps.lookup NameMap.httpPath).isSome ∧
    ((textOf ps NameMap.httpPath).isSome → ∀ t, integerOf ps NameMap.httpType = some t →
      t ≤ LCB_HTTP_TYPE_MAX →
      (∀ m, integerOf ps NameMap.httpMethod = some m → m ≤ LCB_HTTP_METHOD_MAX) →
      (0 ≤ t ∧ t ≠ LCB_HTTP_TYPE_MAX) ∧
        ∀ m, integerOf ps NameMap.httpMethod = some m → 0 ≤ m ∧ m ≠ LCB_HTTP_METHOD_MAX)

/-! ### What an accepted request carries -/

variable {s : PState} {p : CmdPtr} {cmd : LcbCmd} {hd : Header HttpOptions}

omit [Runtime] in
theorem TextAt.points {sp : Span} {t : String} {nul : Bool} (ht : TextAt s sp t nul) :
    Points s.heap sp (some t) :=
  readSpan_holds (.inr ⟨utf8 t, rfl, ht.ptr, ht.len, ht.text⟩)

omit [Runtime] in
theorem TextAt.pointsNul {q : CharPtr} {t : String}
    (ht : TextAt s { ptr := q, len := utf8Length t } t true) : PointsNul s.heap q (some t) := by
  have hread := readBytes_stored (ht.nul rfl)
  rw [List.length_append] at hread
  exact hread

/-- The command that was built is the one `execute` passes on. -/
theorem building_passed (hb : Building h 1 [] p cmd s) :
    (ofState hd s).pointers HttpCommand s.heap = some [s.commands.cmds] ∧
      s.commands.deref s.commands.cmds s.heap = some cmd := by
  obtain ⟨done, hshape, hdone⟩ := hb.1.cmds
  cases hdone
  generalize hcmds : [] ++ cmd :: List.replicate (1 - ([] : List LcbReq).length - 1) {} = cmds
    at hshape
  cases hshape with
  | single hn hc hl =>
    obtain ⟨hcmd, _⟩ := List.cons.inj hcmds
    rw [hc]
    refine ⟨?_, ?_⟩
    · show (s.commands.getAt 0 s.heap).map (fun q => [q.1]) = _
      unfold CommandList.getAt
      rw [hn, if_neg Nat.zero_ne_one, if_pos rfl]
      rfl
    · show (if s.commands.addr = s.commands.addr then some s.commands.singleCmd else none) = _
      rw [if_pos rfl, ← hcmd]
  | array _ h2 => exact absurd h2 (by decide)

theorem carries (hb : Building h 1 [] p cmd s) {path : String}
    (hpath : textOf ps NameMap.httpPath = some path)
    (htexts : HasTexts s cmd (some path) (textOf ps NameMap.httpContentType)
      (textOf ps NameMap.httpContent))
    (hmethod : cmd.nums.method = (integerOf ps NameMap.httpMethod).getD LCB_HTTP_METHOD_GET)
    (htype : integerOf ps NameMap.httpType = some s.htType) : Carries ps hd s := by
  obtain ⟨hptrs, hderef⟩ := @building_passed _ h s p cmd hd hb
  refine ⟨htype, s.commands.cmds, cmd, hptrs, hderef, ?_, hmethod, ?_, ?_⟩
  · obtain ⟨t, ht, hat⟩ := htexts.path
    rw [hpath, ht]
    exact hat.points
  · rcases htexts.content with ⟨hnone, hcmd⟩ | ⟨t, ht, hat⟩
    · rw [hnone, hcmd]
      rfl
    · rw [ht]
      exact hat.points
  · rcases htexts.contentType with ⟨hnone, hcmd⟩ | ⟨t, ht, hat⟩
    · rw [hnone]
      exact hcmd
    · rw [ht]
      exact hat.pointsNul

/-! ### What the handler takes, on the options -/

omit [Runtime] in
theorem typeTaken_iff (ho : HttpRead ps o) : typeTaken o = true ↔
    ∃ t, integerOf ps NameMap.httpType = some t ∧ o.httpType.v = t ∧ t ≤ LCB_HTTP_TYPE_MAX := by
  have hv := ho.type.exact nofun
  unfold typeTaken
  rw [ho.type.isFound, Bool.and_eq_true, decide_eq_true_iff]
  unfold integerOf
  cases hi : intOf (ps.lookup NameMap.httpType) with
  | none =>
    apply iff_of_false
    · rintro ⟨hf, _⟩
      cases hf
    · rintro ⟨t, ht, _⟩
      cases ht
  | some t =>
    rw [hi] at hv
    have hv : o.httpType.v = t := hv
    rw [hv]
    constructor
    · rintro ⟨_, hle⟩
      exact ⟨t, rfl, rfl, hle⟩
    · rintro ⟨t', ht, _, hle⟩
      cases ht
      exact ⟨rfl, hle⟩

omit [Runtime] in
theorem methodTaken_iff (ho : HttpRead ps o) : methodTaken o = true ↔
    ∀ m, integerOf ps NameMap.httpMethod = some m → m ≤ LCB_HTTP_METHOD_MAX := by
  have hv := ho.method.exact nofun
  unfold methodTaken
  rw [ho.method.isFound, Bool.or_eq_true, decide_eq_true_iff]
  unfold integerOf
  cases hi : intOf (ps.lookup NameMap.httpMethod) with
  | none => exact iff_of_true (.inl rfl) nofun
  | some m =>
    rw [hi] at hv
    have hv : o.httpMethod.v = m := hv
    rw [hv]
    constructor
    · rintro (hf | hle) m' hm
      · cases hf
      · cases hm
        exact hle
    · intro h
      exact .inr (h m rfl)

omit [Runtime] in
theorem methodOf_eq (ho : HttpRead ps o) : HttpCommand.methodOf o =
    (integerOf ps NameMap.httpMethod).getD LCB_HTTP_METHOD_GET := by
  have hv := ho.method.exact nofun
  unfold HttpCommand.methodOf
  rw [ho.method.isFound]
  unfold integerOf
  cases hi : intOf (ps.lookup NameMap.httpMethod) with
  | none => rfl
  | some m =>
    rw [hi] at hv
    exact hv

omit [Runtime] in
theorem Absent.none {name : String} (h : Absent ps name) : integerOf ps name = none := by
  unfold Absent at h
  unfold integerOf
  cases hl : ps.lookup name with
  | none => rfl
  | some v =>
    rw [hl] at h
    cases v <;> first | rfl | cases h

omit [Runtime] in
/-- A number below a small bound is one of 32 bits. -/
theorem numeric_of_bounded {name : String} {i b : Int} (hi : integerOf ps name = some i)
    (h0 : 0 ≤ i) (hb : i < b) (hb' : b ≤ 4) : Numeric ps name := by
  right
  refine ⟨i, hi, ?_, ?_⟩
  · show -2147483648 ≤ i
    omega
  · show i < 2147483648
    omega

omit [Runtime] in
theorem Admissible.numeric (ha : Admissible ps) :
    Numeric ps NameMap.httpMethod ∧ Numeric ps NameMap.httpType := by
  obtain ⟨t, ht, ht0, htb⟩ := ha.type
  refine ⟨?_, numeric_of_bounded ht ht0 htb (by decide)⟩
  rcases ha.method with habsent | ⟨m, hm, hm0, hmb⟩
  · exact .inl habsent
  · exact numeric_of_bounded hm hm0 hmb (Int.le_refl _)

omit [Runtime] in
/-- What the handler takes is admissible exactly when no number is negative or its bound. -/
theorem admissible_iff (hm : Numeric ps NameMap.httpMethod)
    (hpath : (textOf ps NameMap.httpPath).isSome) {t : Int}
    (ht : integerOf ps NameMap.httpType = some t) (htle : t ≤ LCB_HTTP_TYPE_MAX)
    (hmle : ∀ m, integerOf ps NameMap.httpMethod = some m → m ≤ LCB_HTTP_METHOD_MAX) :
    Admissible ps ↔ (0 ≤ t ∧ t ≠ LCB_HTTP_TYPE_MAX) ∧
      ∀ m, integerOf ps NameMap.httpMethod = some m → 0 ≤ m ∧ m ≠ LCB_HTTP_METHOD_MAX := by
  constructor
  · intro ha
    obtain ⟨t', ht', h0, hlt⟩ := ha.type
    cases ht.symm.trans ht'
    refine ⟨⟨h0, Int.ne_of_lt hlt⟩, fun m hi => ?_⟩
    rcases ha.method with habsent | ⟨m', hi', hm0, hmlt⟩
    · cases habsent.none.symm.trans hi
    · cases hi.symm.trans hi'
      exact ⟨hm0, Int.ne_of_lt hmlt⟩
  · rintro ⟨⟨h0, hne⟩, hmethod⟩
    refine ⟨hpath, ⟨t, ht, h0, lt_of_le_of_ne htle hne⟩, ?_⟩
    rcases hm with habsent | ⟨m, hi, _⟩
    · exact .inl habsent
    · obtain ⟨hm0, hmne⟩ := hmethod m hi
      exact .inr ⟨m, hi, hm0, lt_of_le_of_ne (hmle m hi) hmne⟩

omit [Runtime] in
theorem Admissible.taken (ha : Admissible ps) (ho : HttpRead ps o) :
    HttpCommand.valid o = true := by
  obtain ⟨t, ht, h0, hlt⟩ := ha.type
  have htype : typeTaken o = true := by
    have hv := ho.type.exact nofun
    rw [show intOf (ps.lookup NameMap.httpType) = some t from ht] at hv
    exact (typeTaken_iff ho).mpr ⟨t, ht, hv, Int.le_of_lt hlt⟩
  have hmethod : methodTaken o = true := by
    apply (methodTaken_iff ho).mpr
    intro m hi
    rcases ha.method with habsent | ⟨m', hi', _, hmlt⟩
    · cases habsent.none.symm.trans hi
    · cases hi.symm.trans hi'
      exact Int.le_of_lt hmlt
  rw [valid_eq, ho.path.given, ha.path, htype, hmethod]
  rfl

/-! ### Exact validation -/

/-- The three ways a request whose options were parsed can go. -/
theorem http_runs (hkey : key.isObject = false) (hps : StringsOf ps)
    (hparse : parseAll (some (.object ps)) HttpOptions.specs {} = .ok o) :
    (o.path.isFound = false →
      accept HttpCommand (httpArgs key ps id) (Command.start h) = .fault) ∧
    (o.path.isFound = true → HttpCommand.valid o = false →
      ∃ st, accept HttpCommand (httpArgs key ps id) (Command.start h) = .refused st) ∧
    (o.path.isFound = true → HttpCommand.valid o = true →
      ∃ hd st, accept HttpCommand (httpArgs key ps id) (Command.start h) = .done hd st ∧
        Carries ps hd st) := by
  have ho := http_read hps hparse
  obtain ⟨hd, ck, s, hglob, hl, hrun⟩ := @http_reaches _ ps key id h o hkey hps hparse
  subst hglob
  refine ⟨fun hf => ?_, fun hf hv => ?_, fun hf hv => ?_⟩
  · rw [hrun]
    exact bind_of_fault (handler_fault hl hf)
  · obtain ⟨st, hst⟩ := @handler_refuses _ h s hd ck none hl hf hv
    exact ⟨st, hrun.trans (bind_of_refused hst)⟩
  · rw [valid_eq, ho.path.given, Bool.and_eq_true, Bool.and_eq_true] at hv
    obtain ⟨⟨hpath, htype⟩, hmethod⟩ := hv
    obtain ⟨path, hpath⟩ := Option.isSome_iff_exists.mp hpath
    have hslot := ho.path
    rw [hpath] at hslot
    obtain ⟨p, cmd, st, hst, hb, htexts, hm, ht⟩ :=
      @handler_finishes _ h s hd ck none path _ _ hl hf hmethod htype hslot ho.contentType
        ho.content
    refine ⟨hd, st, hrun.trans (bind_of_done hst), ?_⟩
    apply carries hb hpath htexts
    · rw [hm, methodOf_eq ho]
    · obtain ⟨t, hi, hv, _⟩ := (typeTaken_iff ho).mp htype
      rw [hi, ht, hv]

/-! What validation comes to, by the way a request went. -/

theorem fault_unvalidated {args : List Value}
    (hrun : accept HttpCommand args (Command.start h) = .fault) : ¬ HttpValidated ps args h := by
  rintro ⟨hacc, hrej⟩
  by_cases ha : Admissible ps
  · obtain ⟨hd, st, hst, _⟩ := hacc ha
    cases hrun.symm.trans hst
  · obtain ⟨st, hst, _⟩ := hrej ha
    cases hrun.symm.trans hst

theorem refused_validated {args : List Value} {st : PState}
    (hrun : accept HttpCommand args (Command.start h) = .refused st) (hna : ¬ Admissible ps) :
    HttpValidated ps args h := by
  refine ⟨fun ha => absurd ha hna, fun _ => ⟨st, hrun, ?_⟩⟩
  obtain ⟨herr, hne, _⟩ := accept_refused (k := .http) hrun
  rw [herr]
  exact firstError_isSet hne

theorem accepted_validated {args : List Value} {hd : Header HttpOptions} {st : PState}
    (hrun : accept HttpCommand args (Command.start h) = .done hd st) (hc : Carries ps hd st) :
    HttpValidated ps args h ↔ Admissible ps := by
  constructor
  · rintro ⟨_, hrej⟩
    by_contra hna
    obtain ⟨st', hst, _⟩ := hrej hna
    cases hrun.symm.trans hst
  · intro ha
    exact ⟨fun _ => ⟨hd, st, hrun, hc⟩, fun hna => absurd ha hna⟩

omit [Runtime] in
/-- What the handler turns down is out of its bounds. -/
theorem bounded_of_invalid (ho : HttpRead ps o) (hsome : (ps.lookup NameMap.httpPath).isSome)
    (hv : HttpCommand.valid o = false) : Bounded ps := by
  intro _ _
  refine ⟨hsome, fun hpath t hi hle hmle => ?_⟩
  have hval := ho.type.exact nofun
  rw [show intOf (ps.lookup NameMap.httpType) = some t from hi] at hval
  rw [valid_eq, ho.path.given, hpath, (typeTaken_iff ho).mpr ⟨t, hi, hval, hle⟩,
    (methodTaken_iff ho).mpr hmle] at hv
  cases hv

omit [Runtime] in
/-- What it takes is within them exactly when it is admissible. -/
theorem bounded_of_valid (ho : HttpRead ps o) (hsome : (ps.lookup NameMap.httpPath).isSome)
    (hm : Numeric ps NameMap.httpMethod) (ht : Numeric ps NameMap.httpType)
    (hv : HttpCommand.valid o = true) : Admissible ps ↔ Bounded ps := by
  rw [valid_eq, ho.path.given, Bool.and_eq_true, Bool.and_eq_true] at hv
  obtain ⟨⟨hpath, htaken⟩, hmethod⟩ := hv
  obtain ⟨t, hi, _, hle⟩ := (typeTaken_iff ho).mp htaken
  have hmle := (methodTaken_iff ho).mp hmethod
  rw [admissible_iff hm hpath hi hle hmle]
  constructor
  · intro hbounds _ _
    refine ⟨hsome, fun _ t' hi' _ _ => ?_⟩
    cases hi.symm.trans hi'
    exact hbounds
  · intro hb
    obtain ⟨_, hbounds⟩ := hb hm ht
    exact hbounds hpath t hi hle hmle

/-- **A request is validated exactly unless the slips of the handler meet it**: it has no path,
    or a number that is negative or one past the last. -/
theorem http_validated_iff (hkey : key.isObject = false) (hps : StringsOf ps) :
    HttpValidated ps (httpArgs key ps id) h ↔ Bounded ps := by
  by_cases hnum : Numeric ps NameMap.httpMethod ∧ Numeric ps NameMap.httpType
  swap
  · -- what is no number is turned down by the parser
    have hnone (o : HttpOptions) : parseAll (some (.object ps)) HttpOptions.specs {} ≠ .ok o :=
      fun hp => hnum ((http_parses_iff hps).mp ⟨o, hp⟩)
    obtain ⟨st, hst⟩ := @http_unparsed _ ps key id h hnone
    apply iff_of_true
    · exact refused_validated hst fun ha => hnum ha.numeric
    · intro hm ht
      exact absurd ⟨hm, ht⟩ hnum
  obtain ⟨hm, ht⟩ := hnum
  obtain ⟨o, hparse⟩ := (http_parses_iff hps).mpr ⟨hm, ht⟩
  have ho := http_read hps hparse
  obtain ⟨hfault, hrefused, hdone⟩ := @http_runs _ ps key id h o hkey hps hparse
  cases hf : o.path.isFound with
  | false =>
    have hlookup : (ps.lookup NameMap.httpPath).isSome = false := ho.found.symm.trans hf
    apply iff_of_false
    · exact fault_unvalidated (hfault hf)
    · intro hb
      obtain ⟨hsome, _⟩ := hb hm ht
      rw [hlookup] at hsome
      cases hsome
  | true =>
    have hsome : (ps.lookup NameMap.httpPath).isSome = true := ho.found.symm.trans hf
    cases hv : HttpCommand.valid o with
    | false =>
      have hna : ¬ Admissible ps := by
        intro ha
        rw [ha.taken ho] at hv
        cases hv
      obtain ⟨st, hst⟩ := hrefused hf hv
      exact iff_of_true (refused_validated hst hna) (bounded_of_invalid ho hsome hv)
    | true =>
      obtain ⟨hd, st, hst, hcarries⟩ := hdone hf hv
      rw [accepted_validated hst hcarries]
      exact bounded_of_valid ho hsome hm ht hv

end Request

end Proof

section Example

open scoped SmallRuntime

/-- A request that adds a design document. -/
def designDocument : Props :=
  [(NameMap.httpType, .number (.fin 0)), (NameMap.httpPath, .string "_design/d"),
    (NameMap.httpMethod, .number (.fin 2)), (NameMap.httpContentType, .string "application/json"),
    (NameMap.httpContent, .string "{}")]

/-- It is validated exactly. -/
theorem Proof.http_validated_iff_design :
    Proof.HttpValidated designDocument (Proof.httpArgs .null designDocument 1) [] := by
  have hstrings : Proof.StringsOf designDocument := by
    intro name hname v hv
    simp only [List.mem_cons, List.not_mem_nil, or_false] at hname
    rcases hname with rfl | rfl | rfl | rfl <;> cases hv <;> exact ⟨_, rfl⟩
  apply (Proof.http_validated_iff rfl hstrings).mpr
  intro _ _
  refine ⟨rfl, fun _ t ht _ _ => ?_⟩
  have htype : Proof.integerOf designDocument NameMap.httpType = some 0 := by decide +kernel
  have hmethod : Proof.integerOf designDocument NameMap.httpMethod = some 2 := by decide +kernel
  rw [htype] at ht
  cases ht
  refine ⟨by decide, fun m hm => ?_⟩
  rw [hmethod] at hm
  cases hm
  exact ⟨by decide, by decide⟩

def noPath : Props := [(NameMap.httpType, .number (.fin 0))]

def lastType : Props :=
  [(NameMap.httpPath, .string "/"), (NameMap.httpType, .number (.fin 3)),
    (NameMap.httpMethod, .number (.fin (-1)))]

/-- A request without a path aborts, and so does one with everything that comes in through
    `_httpRequest`, where the options take the place of the key; one past the last type and a
    negative method are accepted. -/
theorem Proof.missing_path_aborts :
    (Command.accept HttpCommand (Proof.httpArgs .null noPath 1) (Command.start []) = .fault ∧
      ¬ Proof.HttpValidated noPath (Proof.httpArgs .null noPath 1) []) ∧
    Command.accept HttpCommand [.object designDocument, .null, .function 1] (Command.start []) =
      .fault ∧
    (∃ hd st, Command.accept HttpCommand (Proof.httpArgs .null lastType 1) (Command.start []) =
        .done hd st ∧ st.htType = LCB_HTTP_TYPE_MAX ∧ hd.globalOptions.httpMethod.v = -1) ∧
      ¬ Proof.HttpValidated lastType (Proof.httpArgs .null lastType 1) [] := by
  have hfault := Outcome.eq_fault
    (Command.accept HttpCommand (Proof.httpArgs .null noPath 1) (Command.start []))
    (by decide +kernel)
  have hsingle := Outcome.eq_fault
    (Command.accept HttpCommand [.object designDocument, .null, .function 1] (Command.start []))
    (by decide +kernel)
  have hdone : (Command.accept HttpCommand (Proof.httpArgs .null lastType 1)
      (Command.start [])).check (fun hd st => st.htType = LCB_HTTP_TYPE_MAX ∧
        hd.globalOptions.httpMethod.v = -1) = true := by decide +kernel
  refine ⟨⟨hfault, fun hval => ?_⟩, hsingle, ?_, fun hval => ?_⟩
  · have hna : ¬ Proof.Admissible noPath := by
      intro ha
      cases ha.path
    obtain ⟨st, hst, _⟩ := hval.2 hna
    cases hfault.symm.trans hst
  · generalize hacc : Command.accept HttpCommand (Proof.httpArgs .null lastType 1)
      (Command.start []) = out at hdone
    cases out with
    | done hd st => exact ⟨hd, st, rfl, of_decide_eq_true hdone⟩
    | fault | refused => cases hdone
  · have hna : ¬ Proof.Admissible lastType := by
      intro ha
      obtain ⟨t, ht, _, hlt⟩ := ha.type
      have htype : Proof.integerOf lastType NameMap.httpType = some 3 := by decide +kernel
      rw [htype] at ht
      cases ht
      exact absurd hlt (by decide)
    obtain ⟨st, hst, _⟩ := hval.2 hna
    rw [hst] at hdone
    cases hdone

end Example

end Couchnode
