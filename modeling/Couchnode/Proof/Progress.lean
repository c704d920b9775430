import Couchnode.Proof.Deferral
import Couchnode.Proof.Format
import Couchnode.Proof.Rejection

/-!
# What is in order is accepted

`accept_lowered` says what an accepted request has lowered; this is the other direction. A
handler whose class has a request for a key finishes (`HandlerFinishes`, one proof per class), so
a call whose arguments have a header and whose keys all have requests is accepted.

`lower_call` puts both directions together: what libcouchbase is called with, if it is called at
all, is `Command.call`, a function of the arguments alone. Results about which commands a request
makes are proved about that function.
-/

set_option autoImplicit false

namespace Couchnode

namespace Proof

open Prog Command

variable [Runtime] {O : Type}

/-! ## One step -/

section Steps

variable {h₀ : Heap} {n : Nat} {reqs : List LcbReq} {s : PState} {p : CmdPtr} {c : LcbCmd}

omit [Runtime] in
theorem toOption_ok {α : Type} {p : Parsed α} {a : α} (h : p.toOption = some a) : p = .ok a := by
  cases p with
  | ok b => cases h; rfl
  | bad b c => cases h
  | fault => cases h

theorem parse_finishes {α : Type} {p : Parsed α} {a : α} (h : p.toOption = some a) (s : PState) :
    PState.liftParsed p s = .done a s := by
  rw [toOption_ok h]
  rfl

omit [Runtime] in
theorem ListShape.ptr_ne_null {b entered i : Nat} {h : Heap} {l : CommandList} {cmds : List LcbCmd}
    (hs : ListShape b h l n entered cmds) : l.ptr i ≠ .null := by
  unfold CommandList.ptr
  cases hs with
  | single _ hc => simp [hc]
  | array _ _ hc => simp [hc]

omit [Runtime] in
/-- There is room for the next command. -/
theorem getAt_finishes (hl : Lowered h₀ n reqs s) (hlt : reqs.length < n) :
    ∃ p s', PState.getAt reqs.length s = .done p s' ∧ Building h₀ n reqs p {} s' := by
  obtain ⟨done, hshape, _⟩ := hl.cmds
  obtain ⟨h', he, _, _⟩ := getAt_spec hshape hlt
  have hget : PState.getAt reqs.length s =
      .done (s.commands.ptr reqs.length) { s with heap := h' } := by
    simp only [PState.getAt, he]
  exact ⟨_, _, hget, (getAt_done hl hget hshape.ptr_ne_null).1⟩

omit [Runtime] in
theorem assign_finishes (hb : Building h₀ n reqs p c s) (f : LcbCmd → LcbCmd) :
    ∃ s', PState.assign p f s = .done () s' ∧ Building h₀ n reqs p (f c) s' := by
  obtain ⟨done, hshape, hdone⟩ := hb.1.cmds
  have hat : (done ++ c :: List.replicate (n - reqs.length - 1) {})[reqs.length]? = some c := by
    rw [← hdone.length_eq]
    simp
  obtain ⟨h', l', he, _⟩ := update_spec hshape hat f
  have hassign : PState.assign p f s = .done () { s with heap := h', commands := l' } := by
    simp only [PState.assign, hb.2, he]
  exact ⟨_, hassign, (assign_done hb hassign).1⟩

omit [Runtime] in
/-- `getAt` and two assignments, the middle of most handlers. -/
theorem keyed_finishes (hl : Lowered h₀ n reqs s) (hlt : reqs.length < n) (f g : LcbCmd → LcbCmd) :
    ∃ p s₁ s₂ s₃, PState.getAt reqs.length s = .done p s₁ ∧ PState.assign p f s₁ = .done () s₂ ∧
      PState.assign p g s₂ = .done () s₃ := by
  obtain ⟨p, s₁, hget, hb⟩ := getAt_finishes hl hlt
  obtain ⟨s₂, hf, hb⟩ := assign_finishes hb f
  obtain ⟨s₃, hg, _⟩ := assign_finishes hb g
  exact ⟨p, s₁, s₂, s₃, hget, hf, hg⟩

theorem recordIf_finishes (c : Option Complaint) (s : PState) :
    ∃ s', PState.recordIf c s = .done () s' := by
  cases c with
  | none => exact ⟨s, rfl⟩
  | some c => exact ⟨_, rfl⟩

/-- A text that is there is put into a buffer. -/
theorem backedString_finishes {dflt : Option String} {v : Option Value} {bs : Bytes}
    (ok : BufOk s.heap s.bufs) (h : backedString dflt v = some bs) :
    ∃ sp s', getBufBackedString dflt v false s = .done sp s' := by
  rcases getBufBackedString_cases dflt v false with ⟨hbacked, msg, hbad⟩ | ⟨t, hpos, _, hcopy⟩
  · obtain ⟨d, rfl, _⟩ := Option.map_eq_some_iff.mp (hbacked.symm.trans h)
    rw [hbad]
    exact ⟨_, _, rfl⟩
  · obtain ⟨p, s₁, s₂, hg, hp, hw⟩ := store_finishes ok hpos
    have hg : PState.getBuffer (utf8Length t) s = .done p s₁ := hg
    refine ⟨{ ptr := p, len := utf8Length t }, s₂, ?_⟩
    rw [hcopy]
    simp only [Bool.false_eq_true, if_false]
    rw [bind_of_done hg]
    simp only [Prog.when, if_neg hp]
    show Prog.andThen (PState.writeBytes p (utf8 t)) _ s₁ = _
    unfold Prog.andThen
    rw [hw]
    rfl

end Steps

/-! ## The handlers -/

/-- The handler finishes where its class has a request. -/
def HandlerFinishes (cls : CommandClass O) (request : Requester O) : Prop :=
  ∀ {h₀ : Heap} {n : Nat} {reqs : List LcbReq} {s : PState} {hd : Header O} {ck : CommandKey}
    {params : Option Value} {key hashkey : Option Bytes} {req : LcbReq},
    Lowered h₀ n reqs s → reqs.length < n →
    request hd.globalOptions key hashkey params = some req →
    ∃ s', cls.handleSingle hd ck params reqs.length s = .done () s'

theorem keyOptions_finishes {params : Option Value} {glob o : GetOptions}
    (h : GetCommand.options glob params = some o) (s : PState) :
    ∃ own : GetOptions, o = own.merge glob ∧ GetCommand.keyOptions params s = .done own s := by
  unfold GetCommand.options at h
  cases params with
  | none =>
    cases h
    exact ⟨{}, rfl, rfl⟩
  | some p =>
    unfold GetCommand.keyOptions
    by_cases hp : p.isObject
    · simp only [if_pos hp] at h ⊢
      obtain ⟨own, hown, rfl⟩ := Option.map_eq_some_iff.mp h
      exact ⟨own, rfl, parse_finishes hown s⟩
    · simp only [if_neg hp] at h ⊢
      cases h
      exact ⟨{}, rfl, rfl⟩

theorem keepFormat_finishes (ki : CommandKey) (format : Slot (Option Value)) (s : PState) :
    ∃ s', GetCommand.keepFormat ki format s = .done () s' := by
  unfold GetCommand.keepFormat
  by_cases hf : format.isFound
  · obtain ⟨s₁, hr⟩ := recordIf_finishes (ValueFormat.toSpec format.v).2 s
    simp only [if_pos hf]
    rw [bind_of_done hr]
    by_cases ha : (ValueFormat.toSpec format.v).1 = .auto
    · exact ⟨s₁, by rw [if_pos ha]; rfl⟩
    · exact ⟨_, by rw [if_neg ha]; rfl⟩
  · exact ⟨s, by rw [if_neg hf]; rfl⟩

theorem get_finishes : HandlerFinishes GetCommand GetCommand.request := by
  intro h₀ n reqs s hd ck params key hashkey req hl hlt hreq
  obtain ⟨o, ho, _⟩ := Option.map_eq_some_iff.mp hreq
  obtain ⟨own, rfl, hparse⟩ := keyOptions_finishes ho s
  obtain ⟨p, s₁, hget, hb⟩ := getAt_finishes hl hlt
  obtain ⟨s₂, hkey, hb⟩ := assign_finishes hb ck.setKeyV0
  show ∃ s', GetCommand.handleSingle hd ck params reqs.length s = .done () s'
  unfold GetCommand.handleSingle
  rw [bind_of_done hparse, bind_of_done hget, bind_of_done hkey]
  by_cases hlock : (own.merge hd.globalOptions).lockTime.isFound
  · simp only [if_pos hlock]
    obtain ⟨s₃, hf, _⟩ := assign_finishes hb _
    rw [bind_of_done hf]
    exact keepFormat_finishes ck _ s₃
  · simp only [if_neg hlock]
    obtain ⟨s₃, hf, _⟩ := assign_finishes hb _
    rw [bind_of_done hf]
    exact keepFormat_finishes ck _ s₃

omit [Runtime] in
theorem format_eq_some {own glob : StoreOptions} {spec : ValueFormat.Spec} :
    StoreCommand.format own glob = some spec ↔
      (ValueFormat.toSpec (StoreCommand.specObj own glob)).1 = spec ∧ spec ≠ .invalid := by
  unfold StoreCommand.format
  by_cases h : (ValueFormat.toSpec (StoreCommand.specObj own glob)).1 = .invalid
  · simp only [if_pos h]
    constructor
    · intro hn
      cases hn
    · intro hs
      exact absurd (hs.1.symm.trans h) hs.2
  · simp only [if_neg h, Option.some.injEq]
    exact ⟨fun hs => ⟨hs, hs ▸ h⟩, fun hs => hs.1⟩

theorem storeCommand_finishes (op : StorageOp) :
    HandlerFinishes (StoreCommand op) (StoreCommand.request op) := by
  intro h₀ n reqs s hd ck params key hashkey req hl hlt hreq
  unfold StoreCommand.request at hreq
  simp only [Option.bind_eq_bind, Option.bind_eq_some_iff] at hreq
  obtain ⟨v, rfl, own, hown, spec, hspec, value, hvalue, ⟨flags, bytes⟩, henc, _⟩ := hreq
  obtain ⟨p, s₁, hget, hb⟩ := getAt_finishes hl hlt
  obtain ⟨s₂, hkey, hb⟩ := assign_finishes hb ck.setKeyV0
  obtain ⟨hvalid, hne⟩ := format_eq_some.mp hspec
  obtain ⟨s₃, hrec⟩ := recordIf_finishes
    (ValueFormat.toSpec (StoreCommand.specObj own hd.globalOptions)).2 s₂
  have hspec' : StoreCommand.spec own hd.globalOptions s₂ = .done spec s₃ := by
    unfold StoreCommand.spec
    rw [bind_of_done hrec, hvalid, if_neg hne]
    rfl
  have g := recordIf_done hb.1.bufs hrec
  obtain ⟨e, s₄, he⟩ := encode_finishes g.ok henc
  obtain ⟨_, _, _, _, g', _⟩ := encode_done g.ok he
  obtain ⟨s₅, hlast, _⟩ := assign_finishes (hb.grew (g.trans g')) _
  show ∃ s', StoreCommand.handleSingle op hd ck (some v) reqs.length s = .done () s'
  unfold StoreCommand.handleSingle
  rw [bind_of_done hget]
  simp only
  rw [bind_of_done (parse_finishes hown s₁), bind_of_done hkey, bind_of_done hspec', hvalue,
    bind_of_done he]
  exact ⟨s₅, hlast⟩

theorem arithmetic_finishes : HandlerFinishes ArithmeticCommand ArithmeticCommand.request := by
  intro h₀ n reqs s hd ck params key hashkey req hl hlt hreq
  obtain ⟨own, hown, _⟩ := Option.map_eq_some_iff.mp hreq
  obtain ⟨p, s₁, s₂, s₃, hget, hkey, hf⟩ := keyed_finishes hl hlt ck.setKeyV0 _
  show ∃ s', ArithmeticCommand.handleSingle hd ck params reqs.length s = .done () s'
  unfold ArithmeticCommand.handleSingle
  rw [bind_of_done hget, bind_of_done (parse_finishes hown s₁), bind_of_done hkey]
  exact ⟨s₃, hf⟩

theorem delete_finishes : HandlerFinishes DeleteCommand DeleteCommand.request := by
  intro h₀ n reqs s hd ck params key hashkey req hl hlt hreq
  obtain ⟨own, hown, _⟩ := Option.map_eq_some_iff.mp hreq
  obtain ⟨p, s₁, s₂, s₃, hget, hkey, hf⟩ := keyed_finishes hl hlt ck.setKeyV0 _
  show ∃ s', DeleteCommand.handleSingle hd ck params reqs.length s = .done () s'
  unfold DeleteCommand.handleSingle
  rw [bind_of_done (parse_finishes hown s), bind_of_done hget, bind_of_done hkey]
  exact ⟨s₃, hf⟩

theorem unlock_finishes : HandlerFinishes UnlockCommand UnlockCommand.request := by
  intro h₀ n reqs s hd ck params key hashkey req hl hlt hreq
  unfold UnlockCommand.request at hreq
  simp only [Option.bind_eq_bind, Option.bind_eq_some_iff] at hreq
  obtain ⟨v, rfl, own, hown, hcas⟩ := hreq
  obtain ⟨p, s₁, s₂, s₃, hget, hkey, hf⟩ := keyed_finishes hl hlt ck.setKeyV0 _
  show ∃ s', UnlockCommand.handleSingle hd ck (some v) reqs.length s = .done () s'
  unfold UnlockCommand.handleSingle
  simp only
  rw [bind_of_done (parse_finishes hown s)]
  cases hfound : own.cas.isFound with
  | false =>
    rw [hfound] at hcas
    cases hcas
  | true =>
    simp only [Bool.not_true, Bool.false_eq_true, if_false]
    rw [bind_of_done hget, bind_of_done hkey]
    exact ⟨s₃, hf⟩

theorem touch_finishes : HandlerFinishes TouchCommand TouchCommand.request := by
  intro h₀ n reqs s hd ck params key hashkey req hl hlt hreq
  obtain ⟨own, hown, _⟩ := Option.map_eq_some_iff.mp hreq
  obtain ⟨p, s₁, s₂, s₃, hget, hkey, hf⟩ := keyed_finishes hl hlt ck.setKeyV0 _
  show ∃ s', TouchCommand.handleSingle hd ck params reqs.length s = .done () s'
  unfold TouchCommand.handleSingle
  rw [bind_of_done (parse_finishes hown s), bind_of_done hget, bind_of_done hkey]
  exact ⟨s₃, hf⟩

omit [Runtime] in
theorem observe_finishes : HandlerFinishes ObserveCommand ObserveCommand.request := by
  intro h₀ n reqs s hd ck params key hashkey req hl hlt _
  obtain ⟨p, s₁, hget, hb⟩ := getAt_finishes hl hlt
  obtain ⟨s₂, hkey, _⟩ := assign_finishes hb ck.setKeyV0
  show ∃ s', ObserveCommand.handleSingle hd ck params reqs.length s = .done () s'
  unfold ObserveCommand.handleSingle
  rw [bind_of_done hget]
  exact ⟨s₂, hkey⟩

theorem endure_finishes : HandlerFinishes EndureCommand EndureCommand.request := by
  intro h₀ n reqs s hd ck params key hashkey req hl hlt hreq
  obtain ⟨slot, hslot, _⟩ := Option.map_eq_some_iff.mp hreq
  obtain ⟨p, s₁, hget, hb⟩ := getAt_finishes hl hlt
  obtain ⟨s₂, hkey, hb⟩ := assign_finishes hb ck.setKeyV0
  show ∃ s', EndureCommand.handleSingle hd ck params reqs.length s = .done () s'
  unfold EndureCommand.handleSingle
  rw [bind_of_done hget, bind_of_done hkey, bind_of_done (parse_finishes hslot s₂)]
  by_cases hcas : slot.isFound
  · rw [if_pos hcas]
    obtain ⟨s₃, hf, _⟩ := assign_finishes hb _
    exact ⟨s₃, hf⟩
  · rw [if_neg hcas]
    exact ⟨s₂, rfl⟩

/-- The kinds with one command for each key. -/
def ByKey (k : Kind) : Prop := k ≠ .stats ∧ k ≠ .http

omit [Runtime] in
theorem byKey_gets {k : Kind} (hk : k = .get ∨ k = .lock) : ByKey k := by
  rcases hk with rfl | rfl <;> exact ⟨nofun, nofun⟩

omit [Runtime] in
theorem byKey_store (op : StorageOp) : ByKey (.store op) := ⟨nofun, nofun⟩

theorem ByKey.listSize {k : Kind} (hk : ByKey k) : k.cls.listSize = KeysInfo.ncmds := by
  cases k with
  | stats => exact absurd rfl hk.1
  | http => exact absurd rfl hk.2
  | _ => rfl

/-- **Where a class has a request for a key, its handler finishes.** -/
theorem kind_finishes {k : Kind} (hk : ByKey k) : HandlerFinishes k.cls k.request := by
  cases k with
  | get => exact get_finishes
  | lock => exact get_finishes
  | store op => exact storeCommand_finishes op
  | unlock => exact unlock_finishes
  | touch => exact touch_finishes
  | arithmetic => exact arithmetic_finishes
  | delete => exact delete_finishes
  | observe => exact observe_finishes
  | endure => exact endure_finishes
  | stats => exact absurd rfl hk.1
  | http => exact absurd rfl hk.2

/-! ## All the keys -/

section Process

variable {k : Kind} {hd : Header k.Opts} {h₀ : Heap} {n : Nat} {reqs : List LcbReq} {s : PState}

theorem hashkey_finishes {cls : CommandClass O} {hd : Header O} {options : Option Value}
    {t : Option Bytes} (ok : BufOk s.heap s.bufs) (h : hashkeyText cls hd options = some t) :
    ∃ sp s', processHashkey cls hd options s = .done sp s' := by
  unfold hashkeyText at h
  simp only [Option.bind_eq_bind, Option.bind_eq_some_iff] at h
  obtain ⟨slot, hslot, h⟩ := h
  unfold processHashkey
  rw [bind_of_done (parse_finishes hslot s)]
  by_cases hf : slot.isFound
  · rw [if_pos hf] at h ⊢
    obtain ⟨bs, hbs, _⟩ := Option.map_eq_some_iff.mp h
    exact backedString_finishes ok hbs
  rw [if_neg hf] at h ⊢
  by_cases hg : hd.globalHashkey.isFound
  · rw [if_pos hg] at h ⊢
    obtain ⟨bs, hbs, _⟩ := Option.map_eq_some_iff.mp h
    exact backedString_finishes ok hbs
  · rw [if_neg hg]
    exact ⟨_, _, rfl⟩

/-- A key that has a text and a hashkey gets as far as its handler. -/
theorem single_reaches {cls : CommandClass O} {hd : Header O} {item : Option Value × Option Value}
    {hashkey : Option Bytes} {key : Bytes} (hl : Lowered h₀ n reqs s)
    (hhash : hashkeyText cls hd item.2 = some hashkey)
    (hkey : backedString cls.getDefaultString item.1 = some key) :
    ∃ hsp s₁ ksp s₂, processHashkey cls hd item.2 s = .done hsp s₁ ∧
      getBufBackedString cls.getDefaultString item.1 false s₁ = .done ksp s₂ ∧
      Lowered h₀ n reqs s₂ ∧ ∀ ix, processSingle cls hd item.1 item.2 ix s =
        cls.handleSingle hd { object := item.1.getD .undefined, key := ksp, hashkey := hsp }
          item.2 ix s₂ := by
  obtain ⟨hsp, s₁, hh⟩ := hashkey_finishes hl.bufs hhash
  obtain ⟨_, _, g, _⟩ := hashkey_done hl.bufs hh
  obtain ⟨ksp, s₂, hks⟩ := backedString_finishes g.ok hkey
  obtain ⟨g', _⟩ := getBufBackedString_done g.ok hks
  refine ⟨hsp, s₁, ksp, s₂, hh, hks, hl.grew (g.trans g'), fun ix => ?_⟩
  unfold processSingle
  rw [bind_of_done hh, bind_of_done hks]

/-- **One key with a request is lowered.** -/
theorem single_finishes (hk : ByKey k) {item : Option Value × Option Value} {req : LcbReq}
    (hl : Lowered h₀ n reqs s) (hlt : reqs.length < n)
    (hreq : itemRequest k.cls k.request hd item = some req) :
    ∃ s', processSingle k.cls hd item.1 item.2 reqs.length s = .done () s' ∧
      Lowered h₀ n (reqs ++ [req]) s' := by
  have hfull := hreq
  unfold itemRequest at hreq
  simp only [Option.bind_eq_bind, Option.bind_eq_some_iff] at hreq
  obtain ⟨hashkey, hhash, key, hkey, hreq⟩ := hreq
  obtain ⟨hsp, s₁, ksp, s₂, _, _, hl₂, hreach⟩ := single_reaches hl hhash hkey
  have hend : ∃ s₃, k.cls.handleSingle hd
      { object := item.1.getD .undefined, key := ksp, hashkey := hsp } item.2 reqs.length s₂ =
        .done () s₃ := kind_finishes hk hl₂ hlt hreq
  obtain ⟨s₃, hs⟩ := hend
  have hsingle : processSingle k.cls hd item.1 item.2 reqs.length s = .done () s₃ :=
    (hreach _).trans hs
  obtain ⟨req', hreq', hl'⟩ := single_lowers (kind_lowers k) hl hsingle
  obtain rfl := Option.some.inj (hfull.symm.trans hreq')
  exact ⟨s₃, hsingle, hl'⟩

omit [Runtime] in
/-- The loop rule, for a body that finishes where there is a request. -/
theorem each_finishes {β : Type} {f : β → Option LcbReq} {body : Nat → β → Prog PState Unit}
    (hbody : ∀ {x reqs s req}, Lowered h₀ n reqs s → reqs.length < n → f x = some req →
      ∃ s', body reqs.length x s = .done () s' ∧ Lowered h₀ n (reqs ++ [req]) s')
    {xs : List β} {rs : List LcbReq} (hl : Lowered h₀ n reqs s) (hrs : xs.mapM f = some rs)
    (hlen : reqs.length + xs.length ≤ n) :
    ∃ s', Prog.each body reqs.length xs s = .done () s' := by
  induction xs generalizing reqs s rs with
  | nil => exact ⟨s, rfl⟩
  | cons x xs ih =>
    simp only [List.mapM_cons, Option.bind_eq_bind, Option.bind_eq_some_iff] at hrs
    obtain ⟨req, hf, rs', hrs, _⟩ := hrs
    rw [List.length_cons] at hlen
    obtain ⟨s₁, hx, hl₁⟩ := hbody hl (by omega) hf
    have hnext : (reqs ++ [req]).length = reqs.length + 1 := by simp
    obtain ⟨s', hs'⟩ := ih hl₁ hrs (by omega)
    refine ⟨s', ?_⟩
    show (body reqs.length x >>= fun _ => Prog.each body (reqs.length + 1) xs) s = _
    rw [bind_of_done hx, ← hnext]
    exact hs'

theorem process_finishes (hk : ByKey k) {rs : List LcbReq} (hl : Lowered h₀ n [] s)
    (hrs : Command.requests k hd = some rs) (hlen : hd.keys.items.length ≤ n) :
    ∃ s', Command.process k.cls hd s = .done () s' := by
  rw [process_each]
  exact each_finishes (fun hl hlt hreq => single_finishes hk hl hlt hreq) hl hrs (by simpa using hlen)

end Process

/-! ## `initialize` -/

section Initialize

variable {cls : CommandClass O} {args : List Value} {hd : Header O} {s s' : PState}

theorem parseParams_iff {o : O} :
    parseParams cls (arg args 1) s = .done o s' ↔ callOptions cls args = some o ∧ s = s' := by
  unfold parseParams callOptions
  cases cls.params with
  | none =>
    constructor
    · intro h
      cases h
      exact ⟨rfl, rfl⟩
    · rintro ⟨h, rfl⟩
      cases h
      rfl
  | some specs =>
    constructor
    · intro h
      exact parse_done h
    · rintro ⟨h, rfl⟩
      exact parse_finishes h s

/-- A callback that counts is one the slot takes without a complaint. -/
theorem parseCallback_slot {v : Value} {slot : Slot (Option Value)}
    (h : parseCallback v s = .done slot s') (hf : slot.isFound = true) :
    (CallableOption.parseValue v { v := none }).toOption = some slot ∧ s = s' := by
  unfold parseCallback at h
  rcases callable_cases v with hp | ⟨c, hp⟩ | ⟨_, hp⟩
  · rw [hp] at h
    cases h
    cases hf
  · rw [hp] at h
    cases h
    cases hf
  · rw [hp] at h ⊢
    cases h
    exact ⟨rfl, rfl⟩

/-- **`initialize` settles what `header` reads off the arguments.** -/
theorem initialize_header (h : initializeCommand cls args s = .done hd s') :
    header cls args = some hd := by
  obtain ⟨_, s₁, _, h⟩ := bind_eq_done.mp h
  obtain ⟨opts, s₂, ho, h⟩ := bind_eq_done.mp h
  obtain ⟨r, s₃, hc, h⟩ := bind_eq_done.mp h
  obtain ⟨callback, s₄, hcb, hc⟩ := bind_eq_done.mp hc
  obtain ⟨common, s₅, hcommon, hc⟩ := bind_eq_done.mp hc
  cases hf : callback.isFound with
  | false =>
    simp only [hf] at hc
    exact (fail_done hc).elim
  | true =>
    simp only [hf] at hc
    cases hc
    cases h
    unfold header
    simp only [Option.bind_eq_bind, (parseParams_iff.mp ho).1, (parseCallback_slot hcb hf).1,
      (parse_done hcommon).1, Option.bind_some, hf, if_true]

theorem initCommandList_finishes {n : Nat} (hpos : 0 < n) (h₀ : Heap) :
    ∃ s, initCommandList n (Command.start h₀) = .done () s := by
  obtain ⟨h', l', he, _⟩ := initializeList_spec hpos h₀ (Command.start h₀).commands
  refine ⟨{ Command.start h₀ with heap := h', commands := l' }, ?_⟩
  unfold initCommandList
  rw [show (Command.start h₀).heap = h₀ from rfl, he]

/-- **And does so whenever there is one**, and a command to make. -/
theorem header_initialize (h : header cls args = some hd) (hpos : 0 < cls.listSize hd.keys)
    (h₀ : Heap) : ∃ s, initializeCommand cls args (Command.start h₀) = .done hd s := by
  unfold header at h
  simp only [Option.bind_eq_bind, Option.bind_eq_some_iff] at h
  obtain ⟨opts, ho, callback, hcb, common, hcommon, h⟩ := h
  by_cases hf : callback.isFound
  · rw [if_pos hf] at h
    cases h
    obtain ⟨s, hs⟩ := initCommandList_finishes hpos h₀
    refine ⟨s, ?_⟩
    have hcallback : parseCallback (lastArg args) s = .done callback s := by
      unfold parseCallback
      rw [toOption_ok hcb]
      rfl
    have hrest : parseCommonOptions args (arg args 1) s = .done (callback, common) s := by
      unfold parseCommonOptions
      rw [bind_of_done hcallback, bind_of_done (parse_finishes hcommon s), hf]
      rfl
    unfold initializeCommand
    rw [bind_of_done hs, bind_of_done (parseParams_iff.mpr ⟨ho, rfl⟩), bind_of_done hrest]
    rfl
  · rw [if_neg hf] at h
    cases h

end Initialize

/-! ## Both -/

section Accept

variable {k : Kind} {args : List Value} {hd : Header k.Opts} {h : Heap} {st : PState}

theorem accept_header (hacc : accept k.cls args (Command.start h) = .done hd st) :
    header k.cls args = some hd := by
  obtain ⟨hd', s₁, hi, hacc⟩ := bind_eq_done.mp hacc
  obtain ⟨_, s₂, _, hacc⟩ := bind_eq_done.mp hacc
  cases hacc
  exact initialize_header hi

theorem header_keys (hh : header k.cls args = some hd) :
    hd.keys = KeysInfo.setKeys (arg args 0) := by
  unfold header at hh
  simp only [Option.bind_eq_bind, Option.bind_eq_some_iff] at hh
  obtain ⟨_, _, _, _, _, _, hh⟩ := hh
  split at hh
  · cases hh
    rfl
  · cases hh

/-- **A call in order is accepted.** -/
theorem accept_of_requests (hk : ByKey k) {reqs : List LcbReq} (hh : header k.cls args = some hd)
    (hpos : 0 < hd.keys.ncmds) (hreqs : Command.requests k hd = some reqs) (h : Heap) :
    ∃ st, accept k.cls args (Command.start h) = .done hd st := by
  have hsize : k.cls.listSize hd.keys = hd.keys.ncmds := by rw [hk.listSize]
  rw [← hsize] at hpos
  obtain ⟨s₁, hi⟩ := header_initialize hh hpos h
  obtain ⟨_, _, _, hl⟩ := initialize_done hi
  have hitems : hd.keys.items.length = k.cls.listSize hd.keys := by
    rw [hsize, header_keys hh]
    exact items_length _
  obtain ⟨st, hp⟩ := process_finishes hk hl hreqs (Nat.le_of_eq hitems)
  refine ⟨st, ?_⟩
  unfold accept
  rw [bind_of_done hi, bind_of_done hp]
  rfl

/-- What libcouchbase is called with when a request is executed at once, if it is accepted. -/
def lower (k : Kind) (args : List Value) (h : Heap) : Option LcbCall :=
  match accept k.cls args (Command.start h) with
  | .done hd st => (ofState hd st).execute k.cls st.heap
  | _ => none

theorem entry_type (hk : ByKey k) (o : k.Opts) (t : Int) :
    k.cls.entry o t = k.cls.entry o 0 := by
  cases k with
  | http => exact absurd rfl hk.2
  | _ => rfl

theorem execute_call (hk : ByKey k) (hacc : accept k.cls args (Command.start h) = .done hd st) :
    (ofState hd st).execute k.cls st.heap = Command.call k args := by
  obtain ⟨reqs, hreqs, hlen, hhttp, hready⟩ := accept_ready hacc none
  obtain ⟨_, _, hl, hpos, hkeys⟩ := accept_lowered hacc
  have hsize : k.cls.listSize hd.keys = hd.keys.ncmds := by rw [hk.listSize]
  have hitems : reqs.length = k.cls.listSize hd.keys := by
    rw [← (forall₂_of_mapM hreqs).length_eq, hsize, hkeys]
    exact items_length _
  have hall : lowered (k.cls.listSize hd.keys) reqs = reqs := by
    rw [lowered, hitems, Nat.sub_self, List.replicate_zero, List.append_nil]
  have hexec : (ofState hd st).execute k.cls st.heap = _ :=
    execute_ready hready fun hc => hlen.trans (hhttp hc)
  have hne : hd.keys.ncmds ≠ 0 := by
    rw [← hsize]
    exact Nat.ne_of_gt hpos
  rw [hexec, hall]
  unfold Command.call
  simp only [Option.bind_eq_bind, accept_header hacc, Option.bind_some, hreqs, if_neg hne]
  exact congrArg some (congrArg (LcbCall.mk · reqs) (entry_type hk _ _))

/-- A call that is made is one of an accepted request. -/
theorem call_accepted (hk : ByKey k) {lcb : LcbCall} (hcall : Command.call k args = some lcb)
    (h : Heap) : ∃ hd st, accept k.cls args (Command.start h) = .done hd st := by
  unfold Command.call at hcall
  simp only [Option.bind_eq_bind, Option.bind_eq_some_iff] at hcall
  obtain ⟨hd, hh, reqs, hreqs, hcall⟩ := hcall
  by_cases hz : hd.keys.ncmds = 0
  · rw [if_pos hz] at hcall
    cases hcall
  · obtain ⟨st, hst⟩ := accept_of_requests hk hh (Nat.pos_of_ne_zero hz) hreqs h
    exact ⟨hd, st, hst⟩

/-- **What a request lowers to is a function of its arguments.** -/
theorem lower_call (hk : ByKey k) : lower k args h = Command.call k args := by
  unfold lower
  cases hacc : accept k.cls args (Command.start h) with
  | done hd st => exact execute_call hk hacc
  | fault | refused =>
    symm
    rw [Option.eq_none_iff_forall_ne_some]
    intro lcb hcall
    obtain ⟨hd, st, hdone⟩ := call_accepted hk hcall h
    rw [hacc] at hdone
    cases hdone

/-- Every accepted request makes a call. -/
theorem accepted_call (hk : ByKey k) (hacc : accept k.cls args (Command.start h) = .done hd st) :
    ∃ lcb, Command.call k args = some lcb := by
  obtain ⟨reqs, _, hlen, hhttp, hready⟩ := accept_ready hacc none
  have hexec : (ofState hd st).execute k.cls st.heap = _ :=
    execute_ready hready fun hc => hlen.trans (hhttp hc)
  exact ⟨_, (execute_call hk hacc).symm.trans hexec⟩

end Accept

end Proof

end Couchnode
