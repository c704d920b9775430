import Couchnode.Proof.Lowering

/-!
# Every handler computes its class's request

`HandlerLowers cls request` is the refinement of one handler: run on the next index, after
the key and the hashkey are stored, a handler that finishes has appended exactly the request
the class asks for. There is one proof per class, a walk over the handler's own steps; the
memory side of each step is a lemma of `Proof.Lowering`.
-/

set_option autoImplicit false

namespace Couchnode

namespace Proof

open Prog

variable [Runtime] {O : Type}

/-- The handler appends the request its class asks for. -/
def HandlerLowers (cls : CommandClass O) (request : Requester O) : Prop :=
  ∀ {h₀ : Heap} {n : Nat} {reqs : List LcbReq} {s s' : PState} {hd : Header O}
    {ck : CommandKey} {params : Option Value} {key hashkey : Option Bytes} {u : Unit},
    Lowered h₀ n reqs s → SpanHolds s.heap s.bufs ck.key key →
    SpanHolds s.heap s.bufs ck.hashkey hashkey →
    cls.handleSingle hd ck params reqs.length s = .done u s' →
    ∃ req, request hd.globalOptions key hashkey params = some req ∧
      Lowered h₀ n (reqs ++ [req]) s'

section Tools

variable {h : Heap} {b : BufferList} {ck : CommandKey} {key hashkey : Option Bytes}

omit [Runtime] in
/-- A command with nothing but its key, hashkey and numbers filled in. -/
theorem CmdHolds.keyed (hk : SpanHolds h b ck.key key) (hh : SpanHolds h b ck.hashkey hashkey)
    (nums : LcbNumbers) :
    CmdHolds h b { ck.setKeyV0 {} with nums := nums } (.keyed key hashkey nums) :=
  ⟨hk, hh, .inl ⟨rfl, rfl⟩, .inl ⟨rfl, rfl⟩, .inl ⟨rfl, rfl⟩, rfl⟩

/-- A parse that finished inside a handler. -/
theorem parse_done {α : Type} {p : Parsed α} {a : α} {s s' : PState}
    (h : PState.liftParsed p s = .done a s') : p.toOption = some a ∧ s = s' := by
  obtain ⟨rfl, rfl⟩ := liftParsed_done h
  exact ⟨rfl, rfl⟩

variable {h₀ : Heap} {n : Nat} {reqs : List LcbReq} {s s₁ s₂ s₃ : PState} {p : CmdPtr}
  {f : LcbCmd → LcbCmd} {u u' : Unit}

omit [Runtime] in
/-- The common tail: `getAt`, the key, one more assignment of numbers. -/
theorem keyed_done {nums : LcbNumbers} (hl : Lowered h₀ n reqs s)
    (hk : SpanHolds s.heap s.bufs ck.key key) (hh : SpanHolds s.heap s.bufs ck.hashkey hashkey)
    (hg : PState.getAt reqs.length s = .done p s₁)
    (ha : PState.assign p ck.setKeyV0 s₁ = .done u s₂)
    (hf : PState.assign p f s₂ = .done u' s₃)
    (hn : f (ck.setKeyV0 {}) = { ck.setKeyV0 {} with nums := nums }) :
    Lowered h₀ n (reqs ++ [.keyed key hashkey nums]) s₃ := by
  obtain ⟨hb, hs⟩ := setKey_done hl hg ha
  obtain ⟨hb', hs'⟩ := assign_done hb hf
  have hst := hs.trans hs'
  rw [hn] at hb'
  exact hb'.finish (.keyed (hk.mono hst) (hh.mono hst) nums)

end Tools

/-! ## The handlers -/

theorem keyOptions_done {params : Option Value} {o : GetOptions} {s s' : PState}
    (h : GetCommand.keyOptions params s = .done o s') (glob : GetOptions) :
    GetCommand.options glob params = some (o.merge glob) ∧ s = s' := by
  cases params with
  | none =>
    cases h
    exact ⟨rfl, rfl⟩
  | some p =>
    simp only [GetCommand.keyOptions] at h
    by_cases hp : p.isObject
    · rw [if_pos hp] at h
      obtain ⟨ho, hs⟩ := parse_done h
      exact ⟨by simp [GetCommand.options, hp, ho], hs⟩
    · rw [if_neg hp] at h
      cases h
      exact ⟨by simp [GetCommand.options, hp], rfl⟩

/-- Keeping a format for the response does not touch memory. -/
theorem keepFormat_done {ki : CommandKey} {format : Slot (Option Value)} {s s' : PState}
    {u : Unit} (h : GetCommand.keepFormat ki format s = .done u s') :
    s'.heap = s.heap ∧ s'.bufs = s.bufs ∧ s'.commands = s.commands := by
  unfold GetCommand.keepFormat at h
  by_cases hf : format.isFound
  · rw [if_pos hf] at h
    obtain ⟨_, s₁, hr, h⟩ := bind_eq_done.mp h
    have hs₁ : s₁.heap = s.heap ∧ s₁.bufs = s.bufs ∧ s₁.commands = s.commands := by
      revert hr
      cases (ValueFormat.toSpec format.v).2 with
      | none => intro hr; cases hr; exact ⟨rfl, rfl, rfl⟩
      | some c => intro hr; cases hr; exact ⟨rfl, rfl, rfl⟩
    by_cases ha : (ValueFormat.toSpec format.v).1 = .auto
    · rw [if_pos ha] at h
      cases h
      exact hs₁
    · rw [if_neg ha] at h
      cases h
      exact hs₁
  · rw [if_neg hf] at h
    cases h
    exact ⟨rfl, rfl, rfl⟩

theorem get_lowers : HandlerLowers GetCommand GetCommand.request := by
  intro h₀ n reqs s s' hd ck params key hashkey u hl hk hh h
  obtain ⟨o, s₁, ho, h⟩ := bind_eq_done.mp h
  obtain ⟨hopt, rfl⟩ := keyOptions_done ho hd.globalOptions
  obtain ⟨p, s₂, hg, h⟩ := bind_eq_done.mp h
  obtain ⟨_, s₃, ha, h⟩ := bind_eq_done.mp h
  have htail : ∃ f s₄ u', PState.assign p f s₃ = .done u' s₄ ∧
      f (ck.setKeyV0 {}) = { ck.setKeyV0 {} with nums :=
        { exptime := (o.merge hd.globalOptions).lockTime.v.toNat
          lock := if (o.merge hd.globalOptions).lockTime.isFound then 1 else 0 } } ∧
      GetCommand.keepFormat ck (o.merge hd.globalOptions).format s₄ = .done u s' := by
    by_cases hlock : (o.merge hd.globalOptions).lockTime.isFound
    · simp only [if_pos hlock] at h ⊢
      obtain ⟨u', s₄, hf, h⟩ := bind_eq_done.mp h
      exact ⟨_, s₄, u', hf, rfl, h⟩
    · simp only [if_neg hlock] at h ⊢
      obtain ⟨u', s₄, hf, h⟩ := bind_eq_done.mp h
      exact ⟨_, s₄, u', hf, rfl, h⟩
  obtain ⟨f, s₄, u', hf, hn, hkeep⟩ := htail
  obtain ⟨hheap, hbufs, hcmds⟩ := keepFormat_done hkeep
  refine ⟨_, ?_, Lowering.congr (keyed_done hl hk hh hg ha hf hn) hheap hbufs hcmds⟩
  unfold GetCommand.request
  rw [hopt]
  rfl

theorem spec_done {kOptions glob : StoreOptions} {spec : ValueFormat.Spec} {s s' : PState}
    (ok : BufOk s.heap s.bufs) (h : StoreCommand.spec kOptions glob s = .done spec s') :
    StoreCommand.format kOptions glob = some spec ∧ Grew s s' := by
  obtain ⟨_, s₁, hr, h⟩ := bind_eq_done.mp h
  have hg := recordIf_done ok hr
  unfold StoreCommand.format
  by_cases hinv : (ValueFormat.toSpec (StoreCommand.specObj kOptions glob)).1 = .invalid
  · rw [if_pos hinv] at h
    cases h
  · rw [if_neg hinv] at h
    cases h
    exact ⟨if_neg hinv, hg⟩

theorem store_lowers (op : StorageOp) :
    HandlerLowers (StoreCommand op) (StoreCommand.request op) := by
  intro h₀ n reqs s s' hd ck params key hashkey u hl hk hh h
  obtain ⟨p, s₁, hg, h⟩ := bind_eq_done.mp h
  cases params with
  | none => exact (fail_done h).elim
  | some v =>
    obtain ⟨o, s₂, ho, h⟩ := bind_eq_done.mp h
    obtain ⟨hopt, rfl⟩ := parse_done ho
    obtain ⟨_, s₃, ha, h⟩ := bind_eq_done.mp h
    obtain ⟨hb, hs⟩ := setKey_done hl hg ha
    obtain ⟨spec, s₄, hspec, h⟩ := bind_eq_done.mp h
    obtain ⟨hfmt, g⟩ := spec_done hb.1.bufs hspec
    obtain ⟨e, s₅, he, h⟩ := bind_eq_done.mp h
    obtain ⟨w, bs, hv, henc, g', hsp⟩ := encode_done g.ok he
    obtain ⟨hb', hs'⟩ := assign_done (hb.grew (g.trans g')) h
    have hst := (hs.trans (g.trans g').steady).trans hs'
    refine ⟨{ LcbReq.keyed key hashkey
        (StoreCommand.nums op o hd.globalOptions e.flags {}) with bytes := some bs }, ?_,
      hb'.finish ⟨hk.mono hst, hh.mono hst, hsp.mono hs', .inl ⟨rfl, rfl⟩, .inl ⟨rfl, rfl⟩, rfl⟩⟩
    simp only [StoreCommand.request, Option.bind_eq_bind, Option.bind_some, hopt, hfmt, hv, henc]
    rfl

theorem arithmetic_lowers : HandlerLowers ArithmeticCommand ArithmeticCommand.request := by
  intro h₀ n reqs s s' hd ck params key hashkey u hl hk hh h
  obtain ⟨p, s₁, hg, h⟩ := bind_eq_done.mp h
  obtain ⟨o, s₂, ho, h⟩ := bind_eq_done.mp h
  obtain ⟨hopt, rfl⟩ := parse_done ho
  obtain ⟨_, s₃, ha, h⟩ := bind_eq_done.mp h
  refine ⟨_, ?_, keyed_done hl hk hh hg ha h rfl⟩
  unfold ArithmeticCommand.request
  rw [hopt]
  rfl

theorem delete_lowers : HandlerLowers DeleteCommand DeleteCommand.request := by
  intro h₀ n reqs s s' hd ck params key hashkey u hl hk hh h
  obtain ⟨o, s₁, ho, h⟩ := bind_eq_done.mp h
  obtain ⟨hopt, rfl⟩ := parse_done ho
  obtain ⟨p, s₂, hg, h⟩ := bind_eq_done.mp h
  obtain ⟨_, s₃, ha, h⟩ := bind_eq_done.mp h
  refine ⟨_, ?_, keyed_done hl hk hh hg ha h rfl⟩
  unfold DeleteCommand.request
  rw [hopt]
  rfl

theorem unlock_lowers : HandlerLowers UnlockCommand UnlockCommand.request := by
  intro h₀ n reqs s s' hd ck params key hashkey u hl hk hh h
  cases params with
  | none => exact (fail_done h).elim
  | some v =>
    obtain ⟨o, s₁, ho, h⟩ := bind_eq_done.mp h
    obtain ⟨hopt, rfl⟩ := parse_done ho
    cases hcas : o.cas.isFound with
    | false =>
      simp only [hcas] at h
      exact (fail_done h).elim
    | true =>
      simp only [hcas] at h
      obtain ⟨p, s₂, hg, h⟩ := bind_eq_done.mp h
      obtain ⟨_, s₃, ha, h⟩ := bind_eq_done.mp h
      refine ⟨_, ?_, keyed_done hl hk hh hg ha h rfl⟩
      simp only [UnlockCommand.request, Option.bind_eq_bind, Option.bind_some, hopt, hcas]
      rfl

theorem touch_lowers : HandlerLowers TouchCommand TouchCommand.request := by
  intro h₀ n reqs s s' hd ck params key hashkey u hl hk hh h
  obtain ⟨o, s₁, ho, h⟩ := bind_eq_done.mp h
  obtain ⟨hopt, rfl⟩ := parse_done ho
  obtain ⟨p, s₂, hg, h⟩ := bind_eq_done.mp h
  obtain ⟨_, s₃, ha, h⟩ := bind_eq_done.mp h
  refine ⟨_, ?_, keyed_done hl hk hh hg ha h rfl⟩
  unfold TouchCommand.request
  rw [hopt]
  rfl

omit [Runtime] in
theorem observe_lowers : HandlerLowers ObserveCommand ObserveCommand.request := by
  intro h₀ n reqs s s' hd ck params key hashkey u hl hk hh h
  obtain ⟨p, s₁, hg, ha⟩ := bind_eq_done.mp h
  obtain ⟨hb, hs⟩ := setKey_done hl hg ha
  exact ⟨_, rfl, hb.finish (.keyed (hk.mono hs) (hh.mono hs) {})⟩

theorem endure_lowers : HandlerLowers EndureCommand EndureCommand.request := by
  intro h₀ n reqs s s' hd ck params key hashkey u hl hk hh h
  obtain ⟨p, s₁, hg, h⟩ := bind_eq_done.mp h
  obtain ⟨_, s₂, ha, h⟩ := bind_eq_done.mp h
  obtain ⟨casSlot, s₃, ho, h⟩ := bind_eq_done.mp h
  obtain ⟨hopt, rfl⟩ := parse_done ho
  have hreq : EndureCommand.request hd.globalOptions key hashkey params =
      some (.keyed key hashkey { cas := if casSlot.isFound then casSlot.v else 0 }) := by
    unfold EndureCommand.request
    rw [hopt]
    rfl
  by_cases hcas : casSlot.isFound
  · simp only [if_pos hcas] at h hreq
    exact ⟨_, hreq, keyed_done hl hk hh hg ha h rfl⟩
  · simp only [if_neg hcas] at h hreq
    cases h
    obtain ⟨hb, hs⟩ := setKey_done hl hg ha
    exact ⟨_, hreq, hb.finish (.keyed (hk.mono hs) (hh.mono hs) {})⟩

theorem stats_lowers : HandlerLowers StatsCommand StatsCommand.request := by
  intro h₀ n reqs s s' hd ck params key hashkey u hl hk hh h
  simp only [StatsCommand, StatsCommand.handleSingle] at h
  by_cases h0 : reqs.length ≠ 0
  · rw [if_pos h0] at h
    exact (fail_done h).elim
  rw [if_neg h0] at h
  obtain ⟨p, s₁, hg, ha⟩ := bind_eq_done.mp h
  obtain ⟨hb, hs⟩ := setKey_done hl hg ha
  exact ⟨_, rfl, hb.finish ⟨hk.mono hs, .inl ⟨rfl, rfl⟩, .inl ⟨rfl, rfl⟩, .inl ⟨rfl, rfl⟩,
    .inl ⟨rfl, rfl⟩, rfl⟩⟩

/-! ## HTTP

The one handler that puts text of its own into the command, each piece after the others are
already there. -/

section Http

variable {h₀ : Heap} {n : Nat} {reqs : List LcbReq} {s s' : PState} {p : CmdPtr} {c : LcbCmd}
  {o : HttpOptions} {u : Unit}

theorem method_done (h : HttpCommand.method o p s = .done u s') :
    PState.assign p (fun c => { c with nums := { c.nums with method := HttpCommand.methodOf o } })
        s = .done u s' ∧
      (!o.httpMethod.isFound || decide (o.httpMethod.v ≤ LCB_HTTP_METHOD_MAX)) = true := by
  unfold HttpCommand.method at h
  unfold HttpCommand.methodOf
  cases hf : o.httpMethod.isFound with
  | false =>
    simp only [hf] at h
    exact ⟨h, rfl⟩
  | true =>
    simp only [hf] at h
    by_cases hmax : o.httpMethod.v > LCB_HTTP_METHOD_MAX
    · simp only [if_pos hmax] at h
      exact (fail_done h).elim
    · simp only [if_neg hmax] at h
      exact ⟨h, by simpa using hmax⟩

theorem type_done (h : HttpCommand.type o s = .done u s') :
    (s'.heap = s.heap ∧ s'.bufs = s.bufs ∧ s'.commands = s.commands) ∧
      o.httpType.isFound = true ∧ o.httpType.v ≤ LCB_HTTP_TYPE_MAX := by
  unfold HttpCommand.type at h
  cases hf : o.httpType.isFound with
  | false =>
    simp only [hf] at h
    exact (fail_done h).elim
  | true =>
    simp only [hf] at h
    by_cases hmax : o.httpType.v > LCB_HTTP_TYPE_MAX
    · simp only [if_pos hmax] at h
      exact (fail_done h).elim
    · simp only [if_neg hmax] at h
      cases h
      exact ⟨⟨rfl, rfl, rfl⟩, rfl, by omega⟩

/-- One string put into the command. -/
theorem string_done {v : Option Value} {nul : Bool} {f : Span → LcbCmd → LcbCmd}
    (hb : Building h₀ n reqs p c s) (h : HttpCommand.string v nul p f s = .done u s') :
    ∃ sp, Building h₀ n reqs p (f sp c) s' ∧ Steady s s' ∧
      SpanHolds s'.heap s'.bufs sp (backedString (some "") v) ∧
      (nul = true → CStrHolds s'.heap s'.bufs sp.ptr
        ((backedString (some "") v).map (·.takeWhile (· ≠ 0)))) := by
  obtain ⟨sp, s₁, hs, ha⟩ := bind_eq_done.mp h
  obtain ⟨g, _, hsp, hcs⟩ := getBufBackedString_done hb.1.bufs hs
  obtain ⟨hb', hst⟩ := assign_done (hb.grew g) ha
  exact ⟨sp, hb', g.steady.trans hst, hsp.mono hst, fun hn => (hcs hn).mono hst⟩

/-- The path, then the content type and the body where they are given. -/
theorem strings_done (hb : Building h₀ n reqs p c s)
    (hct : c.contentType = .null) (hbytes : c.bytes = {})
    (h : HttpCommand.strings o p s = .done u s') :
    ∃ c', Building h₀ n reqs p c' s' ∧ Steady s s' ∧ HttpCommand.given o.path = true ∧
      SpanHolds s'.heap s'.bufs c'.path (HttpCommand.text o.path) ∧
      CStrHolds s'.heap s'.bufs c'.contentType
        ((HttpCommand.text o.contentType).map (·.takeWhile (· ≠ 0))) ∧
      SpanHolds s'.heap s'.bufs c'.bytes (HttpCommand.text o.content) ∧
      c'.key = c.key ∧ c'.hashkey = c.hashkey ∧ c'.nums = c.nums := by
  unfold HttpCommand.strings at h
  cases hpath : HttpCommand.given o.path with
  | false =>
    simp only [hpath] at h
    exact (fail_done h).elim
  | true =>
    simp only [hpath] at h
    obtain ⟨_, s₁, h₁, h⟩ := bind_eq_done.mp h
    obtain ⟨_, s₂, h₂, h₃⟩ := bind_eq_done.mp h
    obtain ⟨sp, hb₁, hs₁, hsp, _⟩ := string_done hb h₁
    -- the content type
    have step₂ : ∃ ct, Building h₀ n reqs p { c with path := sp, contentType := ct } s₂ ∧
        Steady s₁ s₂ ∧ CStrHolds s₂.heap s₂.bufs ct
          ((HttpCommand.text o.contentType).map (·.takeWhile (· ≠ 0))) := by
      unfold HttpCommand.text
      cases hg : HttpCommand.given o.contentType with
      | false =>
        simp only [hg, Prog.when] at h₂
        cases h₂
        exact ⟨c.contentType, hb₁, fun _ _ hs => hs, .inl ⟨hct, rfl⟩⟩
      | true =>
        simp only [hg, Prog.when] at h₂
        obtain ⟨sp', hb₂, hs₂, _, hcs⟩ := string_done hb₁ h₂
        exact ⟨_, hb₂, hs₂, hcs rfl⟩
    obtain ⟨ct, hb₂, hs₂, hcs⟩ := step₂
    -- the body
    have step₃ : ∃ bs, Building h₀ n reqs p
          { c with path := sp, contentType := ct, bytes := bs } s' ∧
        Steady s₂ s' ∧ SpanHolds s'.heap s'.bufs bs (HttpCommand.text o.content) := by
      unfold HttpCommand.text
      cases hg : HttpCommand.given o.content with
      | false =>
        simp only [hg, Prog.when] at h₃
        cases h₃
        exact ⟨c.bytes, hb₂, fun _ _ hs => hs, .inl ⟨hbytes, rfl⟩⟩
      | true =>
        simp only [hg, Prog.when] at h₃
        obtain ⟨sp', hb₃, hs₃, hsp', _⟩ := string_done hb₂ h₃
        exact ⟨_, hb₃, hs₃, hsp'⟩
    obtain ⟨bs, hb₃, hs₃, hbs⟩ := step₃
    refine ⟨_, hb₃, (hs₁.trans hs₂).trans hs₃, rfl, ?_, hcs.mono hs₃, hbs, rfl, rfl, rfl⟩
    unfold HttpCommand.text
    rw [hpath]
    exact hsp.mono (hs₂.trans hs₃)

theorem http_lowers : HandlerLowers HttpCommand HttpCommand.request := by
  intro h₀ n reqs s s' hd ck params key hashkey u hl hk hh h
  simp only [HttpCommand, HttpCommand.handleSingle] at h
  by_cases h0 : reqs.length ≠ 0
  · rw [if_pos h0] at h
    exact (fail_done h).elim
  rw [if_neg h0] at h
  obtain ⟨p, s₁, hg, h⟩ := bind_eq_done.mp h
  cases hpath : hd.globalOptions.path.isFound with
  | false =>
    simp only [hpath] at h
    cases h
  | true =>
    simp only [hpath] at h
    obtain ⟨_, s₂, hm, h⟩ := bind_eq_done.mp h
    obtain ⟨ha, hmethod⟩ := method_done hm
    obtain ⟨hb, hs⟩ := setKey_done hl hg ha
    obtain ⟨_, s₃, ht, h⟩ := bind_eq_done.mp h
    obtain ⟨⟨hheap, hbufs, hcmds⟩, hfound, htype⟩ := type_done ht
    have hb₃ : Building h₀ n reqs p _ s₃ :=
      ⟨hb.1.congr hheap hbufs hcmds, by rw [hcmds]; exact hb.2⟩
    obtain ⟨c', hb', _, hgiven, hp, hct, hbytes, hkey, hhash, hnums⟩ := strings_done hb₃ rfl rfl h
    have hvalid : HttpCommand.valid hd.globalOptions = true := by
      unfold HttpCommand.valid
      rw [hgiven, hfound, hmethod]
      simpa using htype
    refine ⟨_, if_pos hvalid, hb'.finish ⟨?_, ?_, hbytes, hp, hct, hnums⟩⟩
    · exact .inl ⟨hkey, rfl⟩
    · exact .inl ⟨hhash, rfl⟩

end Http

/-- **Every handler computes its class's request.** -/
theorem kind_lowers (k : Kind) : HandlerLowers k.cls k.request := by
  cases k with
  | get => exact get_lowers
  | lock => exact get_lowers
  | store op => exact store_lowers op
  | unlock => exact unlock_lowers
  | touch => exact touch_lowers
  | arithmetic => exact arithmetic_lowers
  | delete => exact delete_lowers
  | observe => exact observe_lowers
  | endure => exact endure_lowers
  | stats => exact stats_lowers
  | http => exact http_lowers

end Proof

end Couchnode
