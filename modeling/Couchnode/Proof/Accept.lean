import Couchnode.Proof.Handlers
import Couchnode.Proof.Tidy

/-!
# What an accepted request has lowered

The handlers' refinement, carried through the loops of `process` and the steps of
`initialize`. `accept_lowered` is the result: a request that is accepted has, in memory that
is all its own, one command for each of its keys, reading as `Command.requests` says, and
nothing but zeroed commands after them.
-/

set_option autoImplicit false

namespace Couchnode

namespace Proof

open Prog Command

variable [Runtime] {O : Type}

/-! ## One key -/

section Single

variable {cls : CommandClass O} {request : Requester O} {hd : Header O} {h₀ : Heap} {n : Nat}
  {reqs : List LcbReq} {s s' : PState}

theorem hashkey_done {options : Option Value} {sp : Span} (ok : BufOk s.heap s.bufs)
    (h : processHashkey cls hd options s = .done sp s') :
    ∃ t, hashkeyText cls hd options = some t ∧ Grew s s' ∧ SpanHolds s'.heap s'.bufs sp t := by
  obtain ⟨slot, s₁, hp, h⟩ := bind_eq_done.mp h
  obtain ⟨hslot, rfl⟩ := parse_done hp
  unfold hashkeyText
  simp only [Option.bind_eq_bind, hslot, Option.bind_some]
  -- the two places a hashkey can come from end the same way
  have found {v : Option Value} (hb : getBufBackedString cls.getDefaultString v false s
      = .done sp s') : ∃ t, (backedString cls.getDefaultString v).map some = some t ∧
        Grew s s' ∧ SpanHolds s'.heap s'.bufs sp t := by
    obtain ⟨g, ⟨bs, hbs⟩, hsp, _⟩ := getBufBackedString_done ok hb
    rw [hbs] at hsp ⊢
    exact ⟨some bs, rfl, g, hsp⟩
  by_cases hf : slot.isFound
  · rw [if_pos hf] at h ⊢
    exact found h
  rw [if_neg hf] at h ⊢
  by_cases hg : hd.globalHashkey.isFound
  · rw [if_pos hg] at h ⊢
    exact found h
  · rw [if_neg hg] at h ⊢
    cases h
    exact ⟨none, rfl, .refl ok, .inl ⟨rfl, rfl⟩⟩

/-- **One key lowered is one request more.** -/
theorem single_lowers (hh : HandlerLowers cls request) {single options : Option Value} {u : Unit}
    (hl : Lowered h₀ n reqs s)
    (h : processSingle cls hd single options reqs.length s = .done u s') :
    ∃ req, itemRequest cls request hd (single, options) = some req ∧
      Lowered h₀ n (reqs ++ [req]) s' := by
  obtain ⟨hsp, s₁, hhk, h⟩ := bind_eq_done.mp h
  obtain ⟨hashkey, ht, g, hhold⟩ := hashkey_done hl.bufs hhk
  obtain ⟨ksp, s₂, hk, h⟩ := bind_eq_done.mp h
  obtain ⟨g', ⟨key, hkey⟩, kold, _⟩ := getBufBackedString_done g.ok hk
  rw [hkey] at kold
  have hl₂ : Lowered h₀ n reqs s₂ := hl.grew (g.trans g')
  obtain ⟨req, hreq, hl'⟩ := hh hl₂ kold (hhold.mono g'.steady) h
  refine ⟨req, ?_, hl'⟩
  simp only [itemRequest, Option.bind_eq_bind, ht, hkey, Option.bind_some]
  exact hreq

end Single

/-! ## All of them -/

section Process

variable {k : Kind} {hd : Header k.Opts} {h₀ : Heap} {n : Nat} {s s' : PState} {u : Unit}

omit [Runtime] in
/-- The loop rule: a body that appends one request per item, over the whole list. -/
theorem each_lowers {β : Type} {f : β → Option LcbReq} {body : Nat → β → Prog PState Unit}
    (hbody : ∀ {x reqs} {s s' : PState} {u : Unit}, Lowered h₀ n reqs s →
      body reqs.length x s = .done u s' → ∃ req, f x = some req ∧ Lowered h₀ n (reqs ++ [req]) s')
    {xs : List β} {reqs : List LcbReq} (hl : Lowered h₀ n reqs s)
    (h : Prog.each body reqs.length xs s = .done u s') :
    ∃ rs, xs.mapM f = some rs ∧ Lowered h₀ n (reqs ++ rs) s' := by
  induction xs generalizing reqs s with
  | nil =>
    cases h
    exact ⟨[], rfl, by rwa [List.append_nil]⟩
  | cons x xs ih =>
    obtain ⟨_, s₁, hx, hxs⟩ := bind_eq_done.mp h
    obtain ⟨req, hf, hl₁⟩ := hbody hl hx
    have hlen : reqs.length + 1 = (reqs ++ [req]).length := by simp
    rw [hlen] at hxs
    obtain ⟨rs, hrs, hl'⟩ := ih hl₁ hxs
    refine ⟨req :: rs, ?_, ?_⟩
    · simp [List.mapM_cons, hf, hrs]
    · rwa [List.append_assoc] at hl'

/-- `process` is one loop over the keys with their options. -/
theorem process_each {cls : CommandClass O} (hd : Header O) :
    Command.process cls hd =
      Prog.each (fun ix item => processSingle cls hd item.1 item.2 ix) 0 hd.keys.items := by
  unfold Command.process KeysInfo.items
  cases hd.keys.kcollType with
  | singleKey =>
    simp only
    rw [each_singleton]
  | arrayKeys =>
    simp only
    rw [each_map]
    rfl
  | objectKeys =>
    simp only
    rw [each_map]
    rfl

theorem process_lowers (hl : Lowered h₀ n [] s)
    (h : Command.process k.cls hd s = .done u s') :
    ∃ reqs, Command.requests k hd = some reqs ∧ Lowered h₀ n reqs s' := by
  rw [process_each] at h
  exact each_lowers (fun hl hx => single_lowers (kind_lowers k) hl hx) hl h

end Process

/-! ## `initialize` -/

section Initialize

variable {s s' : PState}

/-- The memory members are as they were. -/
def SameMemory (s s' : PState) : Prop :=
  s'.heap = s.heap ∧ s'.bufs = s.bufs ∧ s'.commands = s.commands

omit [Runtime] in
theorem SameMemory.refl (s : PState) : SameMemory s s := ⟨rfl, rfl, rfl⟩

theorem parseParams_done {cls : CommandClass O} {obj : Value} {o : O}
    (h : parseParams cls obj s = .done o s') : SameMemory s s' := by
  unfold parseParams at h
  cases hp : cls.params with
  | some specs =>
    rw [hp] at h
    obtain ⟨_, rfl⟩ := liftParsed_done h
    exact .refl _
  | none =>
    rw [hp] at h
    cases h
    exact .refl _

theorem parseCallback_done {v : Value} {slot : Slot (Option Value)}
    (h : parseCallback v s = .done slot s') : SameMemory s s' := by
  unfold parseCallback at h
  cases hp : CallableOption.parseValue v { v := none } with
  | ok sl =>
    rw [hp] at h
    cases h
    exact .refl _
  | bad sl c =>
    rw [hp] at h
    cases h
    exact .refl _
  | fault =>
    rw [hp] at h
    cases h

theorem parseCommonOptions_done {args : List Value} {obj : Value}
    {r : Slot (Option Value) × CommonOptions} (h : parseCommonOptions args obj s = .done r s') :
    SameMemory s s' := by
  obtain ⟨cb, s₁, hcb, h⟩ := bind_eq_done.mp h
  obtain ⟨common, s₂, hc, h⟩ := bind_eq_done.mp h
  obtain ⟨_, hs⟩ := liftParsed_done hc
  have hs₁ := parseCallback_done hcb
  rw [← hs] at hs₁
  cases hf : cb.isFound with
  | true =>
    simp only [hf] at h
    cases h
    exact hs₁
  | false =>
    simp only [hf] at h
    exact (fail_done h).elim

/-- A fresh object with its command list initialized has nothing lowered yet. -/
theorem initCommandList_done {n : Nat} {h₀ : Heap} {u : Unit}
    (h : initCommandList n (Command.start h₀) = .done u s) : 0 < n ∧ Lowered h₀ n [] s := by
  rcases Nat.eq_zero_or_pos n with rfl | hn
  · cases h
  · obtain ⟨h', l', he, _, hshape, hle, hold⟩ :=
      initializeList_spec hn h₀ (Command.start h₀).commands
    unfold initCommandList at h
    rw [show (Command.start h₀).heap = h₀ from rfl, he] at h
    cases h
    refine ⟨hn, hle, hold, .empty _, fun x hx => absurd hx (by simp [Command.start]), [], ?_,
      .nil⟩
    exact hshape

/-- **What `initialize` leaves**: the commands zeroed, and the header read off the arguments. -/
theorem initialize_done {cls : CommandClass O} {args : List Value} {hd : Header O} {h₀ : Heap}
    (h : initializeCommand cls args (Command.start h₀) = .done hd s) :
    hd.keys = KeysInfo.setKeys (arg args 0) ∧ hd.apiArgs = args ∧ 0 < cls.listSize hd.keys ∧
      Lowered h₀ (cls.listSize hd.keys) [] s := by
  obtain ⟨_, s₁, hi, h⟩ := bind_eq_done.mp h
  obtain ⟨o, s₂, hp, h⟩ := bind_eq_done.mp h
  obtain ⟨r, s₃, hc, h⟩ := bind_eq_done.mp h
  cases h
  obtain ⟨hpos, hl⟩ := initCommandList_done hi
  obtain ⟨hh, hb, hm⟩ := parseParams_done hp
  obtain ⟨hh', hb', hm'⟩ := parseCommonOptions_done hc
  exact ⟨rfl, rfl, hpos, (hl.congr hh hb hm).congr hh' hb' hm'⟩

end Initialize

/-! ## Both -/

/-- **An accepted request has lowered what it was asked for**: one command for each key, in
    memory newer than `h`. -/
theorem accept_lowered {k : Kind} {args : List Value} {hd : Header k.Opts} {h : Heap}
    {st : PState} (hacc : Command.accept k.cls args (Command.start h) = .done hd st) :
    ∃ reqs, Command.requests k hd = some reqs ∧ Lowered h (k.cls.listSize hd.keys) reqs st ∧
      0 < k.cls.listSize hd.keys ∧ hd.keys = KeysInfo.setKeys (arg args 0) := by
  obtain ⟨hd', s₁, hi, hacc⟩ := bind_eq_done.mp hacc
  obtain ⟨_, s₂, hp, hacc⟩ := bind_eq_done.mp hacc
  cases hacc
  obtain ⟨hkeys, _, hpos, hl⟩ := initialize_done hi
  obtain ⟨reqs, hreqs, hl'⟩ := process_lowers hl hp
  exact ⟨reqs, hreqs, hl', hpos, hkeys⟩

end Proof

end Couchnode
