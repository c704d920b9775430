import Couchnode.Proof.Buffers
import Couchnode.Proof.CommandList
import Mathlib.Data.List.Forall2

/-!
# Lowering refines a list of requests

The abstract view of a command being lowered is the list of requests made so far, an
`LcbReq` per key. `Lowered h₀ n reqs s` is the simulation relation: the first
`reqs.length` of the `n` commands in memory read as `reqs`, the others are still zero, the
buffers are sound, and every block is new since `h₀`.

`Building` is the state inside a handler, with one more command entered and holding `c`. A
handler is proved by walking its own steps: `setKey_done` opens the command, `assign_done`
changes it, buffer steps leave it alone (`Grew`), and `Building.finish` closes it.
-/

set_option autoImplicit false

namespace Couchnode

namespace Proof

open Prog

/-- A command in memory and the request it reads as. -/
structure CmdHolds (h : Heap) (b : BufferList) (c : LcbCmd) (req : LcbReq) : Prop where
  key : SpanHolds h b c.key req.key
  hashkey : SpanHolds h b c.hashkey req.hashkey
  bytes : SpanHolds h b c.bytes req.bytes
  path : SpanHolds h b c.path req.path
  contentType : CStrHolds h b c.contentType req.contentType
  nums : c.nums = req.nums

section

variable {h h' : Heap} {b b' : BufferList} {c : LcbCmd} {req : LcbReq}

theorem CmdHolds.mono (hc : CmdHolds h b c req)
    (hst : ∀ p bs, Stored h b p bs → Stored h' b' p bs) : CmdHolds h' b' c req :=
  ⟨hc.key.mono hst, hc.hashkey.mono hst, hc.bytes.mono hst, hc.path.mono hst,
    hc.contentType.mono hst, hc.nums⟩

theorem CmdHolds.read (hc : CmdHolds h b c req) : c.read h = some req := by
  obtain ⟨key, hashkey, bytes, path, contentType, nums⟩ := hc
  have hct := readCString_holds contentType
  rw [LcbCmd.read, readSpan_holds key, readSpan_holds hashkey, readSpan_holds bytes,
    readSpan_holds path, hct, nums]
  rfl

theorem CmdHolds.zero (h : Heap) (b : BufferList) : CmdHolds h b {} .empty :=
  ⟨.inl ⟨rfl, rfl⟩, .inl ⟨rfl, rfl⟩, .inl ⟨rfl, rfl⟩, .inl ⟨rfl, rfl⟩, .inl ⟨rfl, rfl⟩, rfl⟩

end

/-- Nothing stored has moved. -/
def Steady (s s' : PState) : Prop :=
  ∀ p bs, Stored s.heap s.bufs p bs → Stored s'.heap s'.bufs p bs

theorem Grew.steady {s s' : PState} (g : Grew s s') : Steady s s' := g.kept.stored

theorem Steady.trans {s s' s'' : PState} (h : Steady s s') (h' : Steady s' s'') :
    Steady s s'' := fun p bs hs => h' p bs (h p bs hs)

/-- The commands in memory are some that read as `reqs`, followed by `rest`. -/
structure Lowering (h₀ : Heap) (n : Nat) (reqs : List LcbReq) (rest : List LcbCmd)
    (entered : Nat) (s : PState) : Prop where
  base : h₀.length ≤ s.heap.length
  old : ∀ x, x < h₀.length → s.heap.read x = h₀.read x
  bufs : BufOk s.heap s.bufs
  fresh : ∀ x ∈ s.bufs.bufList, h₀.length ≤ x
  cmds : ∃ done, ListShape h₀.length s.heap s.commands n entered (done ++ rest) ∧
    List.Forall₂ (CmdHolds s.heap s.bufs) done reqs

/-- Between two keys. -/
def Lowered (h₀ : Heap) (n : Nat) (reqs : List LcbReq) (s : PState) : Prop :=
  Lowering h₀ n reqs (List.replicate (n - reqs.length) {}) reqs.length s

/-- Inside a handler: the command behind `p` is the next one and holds `c`. -/
def Building (h₀ : Heap) (n : Nat) (reqs : List LcbReq) (p : CmdPtr) (c : LcbCmd)
    (s : PState) : Prop :=
  Lowering h₀ n reqs (c :: List.replicate (n - reqs.length - 1) {}) (reqs.length + 1) s ∧
    p = s.commands.ptr reqs.length

section

variable {h₀ : Heap} {n entered : Nat} {reqs : List LcbReq} {rest : List LcbCmd} {s s' : PState}

/-- Buffer steps keep the commands. -/
theorem Lowering.grew (hl : Lowering h₀ n reqs rest entered s) (g : Grew s s') :
    Lowering h₀ n reqs rest entered s' := by
  obtain ⟨done, hshape, hdone⟩ := hl.cmds
  have hfresh : ∀ x ∈ s'.bufs.bufList, h₀.length ≤ x := by
    intro x hx
    rcases g.kept.mine x hx with hx | hx
    · exact hl.fresh x hx
    · exact Nat.le_trans hl.base hx
  refine ⟨Nat.le_trans hl.base g.kept.length, fun x hx => ?_, g.ok, hfresh, done, ?_, ?_⟩
  · rw [g.kept.old x (Nat.lt_of_lt_of_le hx hl.base) fun hm => ?_]
    · exact hl.old x hx
    · exact Nat.not_le_of_lt hx (hfresh x hm)
  · rw [g.commands]
    exact hshape.kept g.kept
  · exact hdone.imp fun _ _ hc => hc.mono g.kept.stored

/-- So do steps outside memory. -/
theorem Lowering.congr (hl : Lowering h₀ n reqs rest entered s) (hh : s'.heap = s.heap)
    (hb : s'.bufs = s.bufs) (hc : s'.commands = s.commands) :
    Lowering h₀ n reqs rest entered s' := by
  obtain ⟨done, hshape, hdone⟩ := hl.cmds
  refine ⟨?_, ?_, ?_, ?_, done, ?_, ?_⟩
  · rw [hh]; exact hl.base
  · rw [hh]; exact hl.old
  · rw [hh, hb]; exact hl.bufs
  · rw [hb]; exact hl.fresh
  · rw [hh, hc]; exact hshape
  · rw [hh, hb]; exact hdone

theorem Building.grew {p : CmdPtr} {c : LcbCmd} (hb : Building h₀ n reqs p c s)
    (g : Grew s s') : Building h₀ n reqs p c s' :=
  ⟨hb.1.grew g, by rw [g.commands]; exact hb.2⟩

/-- Steps on command arrays keep what the other commands read as. -/
theorem Lowering.retext {rest' : List LcbCmd} {entered' : Nat} {h' : Heap} {l' : CommandList}
    (hl : Lowering h₀ n reqs rest entered s) (t : TextSame h₀.length s.heap h')
    (hs : ∀ done : List LcbCmd, done.length = reqs.length →
      ListShape h₀.length s.heap s.commands n entered (done ++ rest) →
      ListShape h₀.length h' l' n entered' (done ++ rest')) :
    Lowering h₀ n reqs rest' entered' { s with heap := h', commands := l' } := by
  obtain ⟨done, hshape, hdone⟩ := hl.cmds
  exact ⟨by rw [t.length]; exact hl.base, fun x hx => (t.old x hx).trans (hl.old x hx),
    t.bufOk hl.bufs, hl.fresh, done, hs done hdone.length_eq hshape, hdone.imp fun _ _ hc => hc.mono fun _ _ => t.stored⟩

theorem Lowering.length (hl : Lowering h₀ n reqs rest entered s) :
    reqs.length + rest.length = n := by
  obtain ⟨done, hshape, hdone⟩ := hl.cmds
  have := hshape.length
  rw [List.length_append, hdone.length_eq] at this
  exact this

theorem getAt_done {p : CmdPtr} (hl : Lowered h₀ n reqs s)
    (h : PState.getAt reqs.length s = .done p s') (hp : p ≠ .null) :
    Building h₀ n reqs p {} s' ∧ Steady s s' := by
  have hle : reqs.length ≤ n := by have := hl.length; omega
  have hlt : reqs.length < n := by
    rcases Nat.lt_or_eq_of_le hle with hlt | heq
    · exact hlt
    · obtain ⟨done, hshape, _⟩ := hl.cmds
      simp only [PState.getAt, CommandList.getAt, hshape.ncmds, heq, if_true] at h
      cases h
      exact absurd rfl hp
  have hrest : List.replicate (n - reqs.length) ({} : LcbCmd) =
      {} :: List.replicate (n - reqs.length - 1) {} := by
    rw [← List.replicate_succ]
    congr 1
    omega
  obtain ⟨done, hshape, hdone⟩ := hl.cmds
  obtain ⟨h', he, hshape', ht⟩ := getAt_spec hshape hlt
  simp only [PState.getAt, he] at h
  cases h
  refine ⟨⟨?_, rfl⟩, fun p bs hs => ht.stored hs⟩
  have := hl.retext ht fun done' _ hsh =>
    show ListShape h₀.length h' s.commands n (reqs.length + 1)
      (done' ++ List.replicate (n - reqs.length) {}) by
      obtain ⟨h'', he', hsh', _⟩ := getAt_spec hsh hlt
      rw [he] at he'
      cases he'
      exact hsh'
  rw [hrest] at this
  exact this

theorem assign_null {f : LcbCmd → LcbCmd} {u : Unit} :
    PState.assign .null f s ≠ .done u s' := by
  intro h
  cases h

theorem assign_done {p : CmdPtr} {c : LcbCmd} {f : LcbCmd → LcbCmd} {u : Unit}
    (hb : Building h₀ n reqs p c s) (h : PState.assign p f s = .done u s') :
    Building h₀ n reqs p (f c) s' ∧ Steady s s' := by
  obtain ⟨hl, rfl⟩ := hb
  have hat : ∀ done : List LcbCmd, done.length = reqs.length →
      (done ++ c :: List.replicate (n - reqs.length - 1) {})[reqs.length]? = some c := by
    intro done hd
    rw [← hd]
    simp
  obtain ⟨done, hshape, hdone⟩ := hl.cmds
  obtain ⟨h', l', he, ha, hptr, _, ht⟩ := update_spec hshape (hat done hdone.length_eq) f
  simp only [PState.assign, he] at h
  cases h
  refine ⟨⟨hl.retext ht fun done' hd hsh => ?_, by simp only [hptr]⟩, fun p bs hs => ht.stored hs⟩
  obtain ⟨h'', l'', he', _, _, hsh', _⟩ := update_spec hsh (hat done' hd) f
  rw [he] at he'
  cases he'
  have hset : (done' ++ c :: List.replicate (n - reqs.length - 1) {}).set reqs.length (f c) =
      done' ++ f c :: List.replicate (n - reqs.length - 1) {} := by
    simp [← hd]
  rw [hset] at hsh'
  exact hsh'

/-- Opening the next command: `getAt`, then the key. -/
theorem setKey_done {p : CmdPtr} {f : LcbCmd → LcbCmd} {s₁ s₂ : PState} {u : Unit}
    (hl : Lowered h₀ n reqs s) (hg : PState.getAt reqs.length s = .done p s₁)
    (ha : PState.assign p f s₁ = .done u s₂) :
    Building h₀ n reqs p (f {}) s₂ ∧ Steady s s₂ := by
  have hp : p ≠ .null := by
    rintro rfl
    exact assign_null ha
  obtain ⟨hb, hs⟩ := getAt_done hl hg hp
  obtain ⟨hb', hs'⟩ := assign_done hb ha
  exact ⟨hb', hs.trans hs'⟩

/-- Closing it: the command reads as `req`. -/
theorem Building.finish {p : CmdPtr} {c : LcbCmd} {req : LcbReq}
    (hb : Building h₀ n reqs p c s) (hc : CmdHolds s.heap s.bufs c req) :
    Lowered h₀ n (reqs ++ [req]) s := by
  obtain ⟨done, hshape, hdone⟩ := hb.1.cmds
  refine ⟨hb.1.base, hb.1.old, hb.1.bufs, hb.1.fresh, done ++ [c], ?_, ?_⟩
  · have hlen : (reqs ++ [req]).length = reqs.length + 1 := by simp
    rw [hlen, List.append_assoc, Nat.sub_add_eq]
    exact hshape
  · exact List.rel_append hdone (List.Forall₂.cons hc List.Forall₂.nil)

end

end Proof

end Couchnode
