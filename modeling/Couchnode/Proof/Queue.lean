import Couchnode.Proof.Machine
import Couchnode.V8.Runtime
import Mathlib.Data.List.Flatten
import Mathlib.Data.List.Nodup

/-!
# The queue owns its memory

`Sound s` is what holds of the queue in every reachable state of the connection: each queued
command is ready, and no two of them share a block. Whatever happens next — requests accepted,
rejected or executed, the front command deleted — the memory of a command that stays in the
queue does not change (`moves_frame`), so what it asks of libcouchbase is settled when it is
queued.

`deferred_request` puts this together with the copy of `Proof.Deferral`.
-/

set_option autoImplicit false

namespace Couchnode

/-- What goes when a queued command is deleted: its blocks and the object. -/
def Pending.blocks (p : Pending) : List Nat :=
  p.cmd.blocks ++
    match p.cmd.commands.addr with
    | .heap b => [b]
    | .stack => []

/-- The block a pointer leads into. -/
def CharPtr.block : CharPtr → Option Nat
  | .inBlock b _ => some b
  | _ => none

def CmdPtr.block : CmdPtr → Option Nat
  | .elem b _ => some b
  | _ => none

def CmdListPtr.block : CmdListPtr → Option Nat
  | .arr b => some b
  | _ => none

/-- The blocks a command points into. -/
def LcbCmd.texts (c : LcbCmd) : List Nat :=
  [c.key.ptr, c.hashkey.ptr, c.bytes.ptr, c.path.ptr, c.contentType].filterMap CharPtr.block

namespace Command

variable {O : Type}

/-- The text blocks the commands `execute` passes point into. -/
def texts (cls : CommandClass O) (h : Heap) (c : Command O) : Option (List Nat) := do
  let ptrs ← c.pointers cls h
  let cmds ← ptrs.mapM fun p => c.commands.deref p h
  pure (cmds.flatMap LcbCmd.texts)

/-- The arrays those commands, and the pointers to them, lie in. -/
def arrays (cls : CommandClass O) (h : Heap) (c : Command O) : Option (List Nat) := do
  let ptrs ← c.pointers cls h
  pure (ptrs.filterMap CmdPtr.block ++ c.commands.cmdlist.block.toList)

end Command

namespace Proof

open Command Impl

variable [Runtime]

structure Sound (s : Impl) : Prop where
  ready : ∀ p ∈ s.pendingCommands, ∃ reqs, Ready 0 s.heap p.cmd reqs ∧
    (p.kind.cls.cookieKind = .http → reqs.length = 1)
  live : ∀ p ∈ s.pendingCommands, ∀ x ∈ p.blocks, x < s.heap.length
  apart : (s.pendingCommands.flatMap Pending.blocks).Nodup
  ids : ∀ p ∈ s.pendingCommands, p.id < s.nextId
  cookie : ∀ p ∈ s.pendingCommands, p.cmd.cookie.isSome = true

section Weaken

variable {O : Type} {h₀ h₁ n entered : Nat} {h : Heap} {l : CommandList} {cmds : List LcbCmd}

omit [Runtime] in
theorem ListShape.weaken (s : ListShape h₀ h l n entered cmds) (hle : h₁ ≤ h₀) :
    ListShape h₁ h l n entered cmds := by
  cases s with
  | single hn hc hl => exact .single hn hc hl
  | array hn h2 hc hl hcb hpb hclen hplen hne hcf hpf hent =>
    exact .array hn h2 hc hl hcb hpb hclen hplen hne (by omega) (by omega) hent

omit [Runtime] in
theorem Ready.weaken {c : Command O} {reqs : List LcbReq} (r : Ready h₀ h c reqs)
    (hle : h₁ ≤ h₀) : Ready h₁ h c reqs := by
  obtain ⟨cmds, hshape, hcmds⟩ := r.cmds
  exact ⟨r.bufs, fun x hx => Nat.le_trans hle (r.fresh x hx), cmds, hshape.weaken hle, hcmds⟩

end Weaken

/-! ## What a ready command points into is its own -/

section Points

variable {O : Type} {cls : CommandClass O} {h₀ : Nat} {h : Heap} {c : Command O}
  {reqs : List LcbReq}

omit [Runtime] in
theorem SpanHolds.block {b : BufferList} {sp : Span} {v : Option Bytes} {x : Nat}
    (hs : SpanHolds h b sp v) (hx : sp.ptr.block = some x) : x ∈ b.bufList := by
  rcases hs with ⟨rfl, _⟩ | ⟨bs, _, _, _, hst⟩
  · cases hx
  · cases hp : sp.ptr with
    | inBlock y off =>
      rw [hp] at hx hst
      cases hx
      exact hst.1.1
    | null => rw [hp] at hx; cases hx
    | lit t => rw [hp] at hx; cases hx

omit [Runtime] in
theorem CStrHolds.block {b : BufferList} {p : CharPtr} {v : Option Bytes} {x : Nat}
    (hs : CStrHolds h b p v) (hx : p.block = some x) : x ∈ b.bufList := by
  rcases hs with ⟨rfl, _⟩ | ⟨bs, _, ⟨t, rfl, _⟩ | ⟨_, hst⟩⟩
  · cases hx
  · cases hx
  · cases p with
    | inBlock y off =>
      cases hx
      exact hst.1.1
    | null => cases hx
    | lit t => cases hx

omit [Runtime] in
theorem CmdHolds.texts {b : BufferList} {cmd : LcbCmd} {req : LcbReq}
    (hc : CmdHolds h b cmd req) : ∀ x ∈ cmd.texts, x ∈ b.bufList := by
  intro x hx
  obtain ⟨p, hp, hb⟩ := List.mem_filterMap.mp hx
  simp only [List.mem_cons, List.not_mem_nil, or_false] at hp
  rcases hp with rfl | rfl | rfl | rfl | rfl
  · exact hc.key.block hb
  · exact hc.hashkey.block hb
  · exact hc.bytes.block hb
  · exact hc.path.block hb
  · exact hc.contentType.block hb

omit [Runtime] in
theorem texts_ready (r : Ready h₀ h c reqs) (hhttp : cls.cookieKind = .http → reqs.length = 1) :
    ∃ xs, c.texts cls h = some xs ∧ ∀ x ∈ xs, x ∈ c.bufs.bufList := by
  obtain ⟨cmds, hshape, hcmds⟩ := r.cmds
  have hlen := hcmds.length_eq
  have hderef : ((List.range reqs.length).map c.commands.ptr).mapM
      (fun p => c.commands.deref p h) = some cmds := by
    refine mapM_of_forall₂ (List.forall₂_map_left_iff.mpr ?_)
    refine List.forall₂_iff_get.mpr ⟨by simp [hlen], fun i hi hi' => ?_⟩
    have hi₀ : i < reqs.length := by simpa using hi
    rw [List.get_eq_getElem, List.getElem_range, deref_ptr hshape hi₀,
      List.getElem?_eq_getElem hi']
    rfl
  refine ⟨cmds.flatMap LcbCmd.texts, ?_, ?_⟩
  · unfold Command.texts
    simp only [pointers_ready r hhttp, Option.bind_eq_bind, Option.bind_some, hderef]
    rfl
  · intro x hx
    obtain ⟨cmd, hcmd, hx⟩ := List.mem_flatMap.mp hx
    obtain ⟨i, hi, rfl⟩ := List.getElem_of_mem hcmd
    exact ((List.forall₂_iff_get.mp hcmds).2 i hi (by omega)).texts x hx

omit [Runtime] in
/-- The arrays the pointers of a list lead into are the list's own. -/
theorem ListShape.arrays {n entered : Nat} {l : CommandList} {cmds : List LcbCmd}
    (s : ListShape h₀ h l n entered cmds) :
    ∀ x ∈ ((List.range n).map l.ptr).filterMap CmdPtr.block ++ l.cmdlist.block.toList,
      x ∈ l.owned := by
  intro x hx
  cases s with
  | single hn hc hl =>
    rw [hl] at hx
    rcases List.mem_append.mp hx with hx | hx
    · obtain ⟨p, hp, hb⟩ := List.mem_filterMap.mp hx
      obtain ⟨i, _, rfl⟩ := List.mem_map.mp hp
      simp [CommandList.ptr, hc, CmdPtr.block] at hb
    · simp [CmdListPtr.block] at hx
  | array hn h2 hc hl hcb hpb hclen hplen hne hcf hpf hent =>
    rw [owned_array (by omega) hc hl]
    rw [hl] at hx
    rcases List.mem_append.mp hx with hx | hx
    · obtain ⟨p, hp, hb⟩ := List.mem_filterMap.mp hx
      obtain ⟨i, _, rfl⟩ := List.mem_map.mp hp
      simp only [CommandList.ptr, hc, CmdPtr.block, Option.some.injEq] at hb
      rw [← hb]
      exact List.mem_cons_self ..
    · simp only [CmdListPtr.block, Option.toList_some, List.mem_singleton] at hx
      rw [hx]
      simp

omit [Runtime] in
theorem arrays_ready (r : Ready h₀ h c reqs) (hhttp : cls.cookieKind = .http → reqs.length = 1) :
    ∃ bs, c.arrays cls h = some bs ∧ ∀ x ∈ bs, x ∈ c.commands.owned := by
  obtain ⟨cmds, hshape, _⟩ := r.cmds
  refine ⟨_, ?_, hshape.arrays⟩
  unfold Command.arrays
  rw [pointers_ready r hhttp]
  rfl

end Points

/-! ## Deleting the front command -/

section Delete

variable {p : Pending} {h : Heap}

omit [Runtime] in
theorem deleteObject_length : (p.cmd.deleteObject h).length = h.length := by
  unfold Command.deleteObject Command.destroy BufferList.destroy CommandList.destroy
  cases p.cmd.commands.addr <;> simp

omit [Runtime] in
/-- Deleting a command touches its own blocks only. -/
theorem deleteObject_read {x : Nat} (hx : x ∉ p.blocks) :
    (p.cmd.deleteObject h).read x = h.read x := by
  have hd : (p.cmd.destroy h).read x = h.read x := by
    unfold Command.destroy BufferList.destroy CommandList.destroy
    rw [Blocks.read_freeAll fun hm => hx ?_, Blocks.read_freeAll fun hm => hx ?_]
    · exact List.mem_append_left _ (List.mem_append_right _ hm)
    · exact List.mem_append_left _ (List.mem_append_left _ hm)
  unfold Command.deleteObject
  unfold Pending.blocks at hx
  cases ha : p.cmd.commands.addr with
  | stack => exact hd
  | heap b =>
    have hne : x ≠ b := by
      rintro rfl
      exact hx (List.mem_append_right _ (by simp [ha]))
    show ((p.cmd.destroy h).free b).read x = h.read x
    rw [Blocks.read_free_ne hne]
    exact hd

end Delete

/-! ## Every step keeps the queue sound -/

section Step

variable {s s' : Impl}

/-- The queue is as it was, and old memory too. -/
theorem Sound.grow (hs : Sound s) (hp : s'.pendingCommands = s.pendingCommands)
    (hid : s.nextId ≤ s'.nextId) (hle : s.heap.length ≤ s'.heap.length)
    (hold : ∀ x, x < s.heap.length → s'.heap.read x = s.heap.read x) : Sound s' := by
  have hin : ∀ p ∈ s'.pendingCommands, p ∈ s.pendingCommands := by
    rw [hp]
    exact fun _ => id
  refine ⟨?_, ?_, ?_, ?_, ?_⟩
  · intro p hm
    obtain ⟨reqs, hr, hhttp⟩ := hs.ready p (hin p hm)
    exact ⟨reqs, hr.frame fun x hx => hold x (hr.lt x hx), hhttp⟩
  · intro p hm x hx
    exact Nat.lt_of_lt_of_le (hs.live p (hin p hm) x hx) hle
  · rw [hp]
    exact hs.apart
  · intro p hm
    exact Nat.lt_of_lt_of_le (hs.ids p (hin p hm)) hid
  · intro p hm
    exact hs.cookie p (hin p hm)

/-- Deleting the front command leaves the others as they were. -/
theorem Sound.delete {p : Pending} {ps : List Pending} (hs : Sound s)
    (hp : s.pendingCommands = p :: ps) (hp' : s'.pendingCommands = ps)
    (hid : s'.nextId = s.nextId) (hh : s'.heap = p.cmd.deleteObject s.heap) : Sound s' := by
  have hin : ∀ q ∈ s'.pendingCommands, q ∈ s.pendingCommands := by
    intro q hm
    rw [hp]
    rw [hp'] at hm
    exact List.mem_cons_of_mem _ hm
  have hapart := hs.apart
  rw [hp, List.flatMap_cons, List.nodup_append] at hapart
  obtain ⟨_, hrest, hdis⟩ := hapart
  have hframe : ∀ q ∈ s'.pendingCommands, ∀ x ∈ q.blocks, s'.heap.read x = s.heap.read x := by
    intro q hm x hx
    rw [hh]
    apply deleteObject_read
    intro hxp
    rw [hp'] at hm
    exact hdis x hxp x (List.mem_flatMap.mpr ⟨q, hm, hx⟩) rfl
  refine ⟨?_, ?_, ?_, ?_, ?_⟩
  · intro q hm
    obtain ⟨reqs, hr, hhttp⟩ := hs.ready q (hin q hm)
    exact ⟨reqs, hr.frame fun x hx => hframe q hm x (List.mem_append_left _ hx), hhttp⟩
  · intro q hm x hx
    rw [hh, deleteObject_length]
    exact hs.live q (hin q hm) x hx
  · rw [hp']
    exact hrest
  · intro q hm
    rw [hid]
    exact hs.ids q (hin q hm)
  · intro q hm
    exact hs.cookie q (hin q hm)

theorem Sound.popCommand (hs : Sound s) : Sound (popCommand s) := by
  unfold Impl.popCommand
  cases hp : s.pendingCommands with
  | nil => exact hs
  | cons p ps => exact hs.delete hp rfl rfl rfl

omit [Runtime] in
theorem copy_addr (l : CommandList) (a : ObjAddr) : (l.copy a).1.addr = a := by
  unfold CommandList.copy
  by_cases h : l.ncmds < 2
  · simp only [if_pos h]
  · simp only [if_neg h]

section Accepted

variable {k : Kind} {args : List Value} {hd : Header k.Opts} {st : PState}

/-- The blocks of the queued copy: all new, none twice. -/
theorem queued_blocks (hacc : Accepts s k args hd st) :
    let p : Pending := { id := s.nextId, kind := k, cmd := queued k hd st }
    (∀ x ∈ p.blocks, s.heap.length ≤ x ∧ x < (st.heap.alloc .object).length) ∧ p.blocks.Nodup := by
  intro p
  obtain ⟨reqs, _, _, hr, hq, hblocks, _⟩ := withCookie_ready hacc
  have haddr : (queued k hd st).commands.addr = .heap st.heap.length := copy_addr _ _
  have hb : p.blocks = (withCookie k hd st).blocks ++ [st.heap.length] := by
    show (queued k hd st).blocks ++ (match (queued k hd st).commands.addr with
      | .heap b => [b]
      | .stack => []) = _
    rw [hblocks, haddr]
  rw [hb]
  constructor
  · intro x hx
    rcases List.mem_append.mp hx with hx | hx
    · have hlt := hr.lt x hx
      refine ⟨(hr.live x hx).1, ?_⟩
      rw [Blocks.length_alloc]
      omega
    · rw [List.mem_singleton.mp hx, Blocks.length_alloc]
      exact ⟨(accepted_fresh hacc).bufs.base, Nat.lt_succ_self _⟩
  · refine List.nodup_append.mpr ⟨hr.nodup, by simp, fun x hx y hy he => ?_⟩
    rw [List.mem_singleton.mp hy] at he
    exact absurd (hr.lt x hx) (by omega)

theorem sound_queue (hs : Sound s) (hacc : Accepts s k args hd st) :
    Sound { s with
      heap := st.heap.alloc .object, nextId := s.nextId + 1
      log := s.log ++ [.accepted s.nextId s.isShutdown]
      pendingCommands :=
        s.pendingCommands ++ [{ id := s.nextId, kind := k, cmd := queued k hd st }] } := by
  obtain ⟨reqs, hhttp, _, _, hq, _, _⟩ := withCookie_ready hacc
  obtain ⟨hnew, hnd⟩ := queued_blocks hacc
  have hf := (accepted_fresh hacc).bufs.alloc .object
  -- the commands that were there, on the new heap
  have hold : Sound { s with heap := st.heap.alloc .object, nextId := s.nextId + 1 } :=
    hs.grow rfl (Nat.le_succ _) hf.base hf.old
  refine ⟨?_, ?_, ?_, ?_, ?_⟩
  · intro p hm
    rcases List.mem_append.mp hm with hm | hm
    · exact hold.ready p hm
    · rw [List.mem_singleton.mp hm]
      exact ⟨reqs, hq.weaken (Nat.zero_le _), hhttp⟩
  · intro p hm x hx
    rcases List.mem_append.mp hm with hm | hm
    · exact hold.live p hm x hx
    · rw [List.mem_singleton.mp hm] at hx
      exact (hnew x hx).2
  · show ((s.pendingCommands ++ [_]).flatMap Pending.blocks).Nodup
    rw [List.flatMap_append, List.flatMap_singleton]
    refine List.nodup_append.mpr ⟨hs.apart, hnd, fun x hx y hy he => ?_⟩
    obtain ⟨p, hm, hxp⟩ := List.mem_flatMap.mp hx
    have := hs.live p hm x hxp
    have := (hnew y hy).1
    omega
  · intro p hm
    rcases List.mem_append.mp hm with hm | hm
    · exact hold.ids p hm
    · rw [List.mem_singleton.mp hm]
      exact Nat.lt_succ_self _
  · intro p hm
    rcases List.mem_append.mp hm with hm | hm
    · exact hold.cookie p hm
    · rw [List.mem_singleton.mp hm]
      rfl

end Accepted

theorem moves_sound {a : Action} (hs : Sound s) (hm : Moves s a s') : Sound s' := by
  cases hm with
  | reject hjs hacc hr =>
    have hf := unwind_old (refused_fresh hacc)
    exact hs.grow rfl (Nat.le_refl _) hf.1 hf.2
  | queue hjs hacc hc => exact sound_queue hs hacc
  | execute hjs hacc hc hcall =>
    have hf := unwind_old (accepted_fresh hacc)
    exact hs.grow rfl (Nat.le_succ _) hf.1 hf.2
  | scheduled hc hp hg hcall => exact hs.delete hp rfl rfl rfl
  | popFront hc => exact hs.popCommand.grow rfl (Nat.le_refl _) (Nat.le_refl _) fun _ _ => rfl
  | _ => exact hs.grow rfl (Nat.le_refl _) (Nat.le_refl _) fun _ _ => rfl

/-- **In every reachable state the queue is sound.** -/
theorem run_sound {as : List Action} (h : Impl.run as = some s) : Sound s := by
  have hinit : Sound {} := ⟨fun p hp => absurd hp (by simp), fun p hp => absurd hp (by simp),
    List.nodup_nil, fun p hp => absurd hp (by simp), fun p hp => absurd hp (by simp)⟩
  exact Run.exec_inv_all (fun a s s' hs hst => moves_sound hs (step_moves hst)) hinit h

/-! ## A queued command stays what it is -/

/-- **No step changes the memory of a command that stays in the queue.** -/
theorem moves_frame {a : Action} {p : Pending} (hs : Sound s) (hm : Moves s a s')
    (hp : p ∈ s.pendingCommands) (hp' : p ∈ s'.pendingCommands) :
    ∀ x ∈ p.cmd.blocks, s'.heap.read x = s.heap.read x := by
  have hlt : ∀ x ∈ p.cmd.blocks, x < s.heap.length :=
    fun x hx => hs.live p hp x (List.mem_append_left _ hx)
  -- a command behind the front one
  have behind {q : Pending} {ps : List Pending} (hq : s.pendingCommands = q :: ps) (hps : p ∈ ps) :
      ∀ x ∈ p.cmd.blocks, (q.cmd.deleteObject s.heap).read x = s.heap.read x := by
    intro x hx
    apply deleteObject_read
    intro hxq
    have hapart := hs.apart
    rw [hq, List.flatMap_cons, List.nodup_append] at hapart
    exact hapart.2.2 x hxq x
      (List.mem_flatMap.mpr ⟨p, hps, List.mem_append_left _ hx⟩) rfl
  cases hm with
  | reject hjs hacc hr => exact fun x hx => (unwind_old (refused_fresh hacc)).2 x (hlt x hx)
  | queue hjs hacc hc =>
    exact fun x hx => ((accepted_fresh hacc).bufs.alloc .object).old x (hlt x hx)
  | execute hjs hacc hc hcall =>
    exact fun x hx => (unwind_old (accepted_fresh hacc)).2 x (hlt x hx)
  | scheduled hc hq hg hcall => exact behind hq hp'
  | popFront hc =>
    have hp'' : p ∈ (Impl.popCommand s).pendingCommands := hp'
    show ∀ x ∈ p.cmd.blocks, (Impl.popCommand s).heap.read x = s.heap.read x
    unfold Impl.popCommand at hp'' ⊢
    cases hq : s.pendingCommands with
    | nil => exact fun _ _ => rfl
    | cons q ps =>
      simp only [hq] at hp'' ⊢
      exact behind hq hp''
  | _ => exact fun _ _ => rfl

/-- What is in the queue was there, or is the command just accepted. -/
theorem moves_mem {a : Action} {p : Pending} (hm : Moves s a s')
    (hp : p ∈ s'.pendingCommands) : p ∈ s.pendingCommands ∨ p.id = s.nextId := by
  cases hm with
  | queue hjs hacc hc =>
    rcases List.mem_append.mp hp with hp | hp
    · exact .inl hp
    · rw [List.mem_singleton.mp hp]
      exact .inr rfl
  | scheduled hc hq hg hcall =>
    rw [hq]
    exact .inl (List.mem_cons_of_mem _ hp)
  | popFront hc =>
    have hp' : p ∈ (Impl.popCommand s).pendingCommands := hp
    unfold Impl.popCommand at hp'
    cases hq : s.pendingCommands with
    | nil =>
      simp only [hq] at hp'
      exact absurd hp' (by simp)
    | cons q ps =>
      simp only [hq] at hp'
      exact .inl (List.mem_cons_of_mem _ hp')
  | _ => exact .inl hp

omit [Runtime] in
theorem popCommand_nextId : (Impl.popCommand s).nextId = s.nextId := by
  unfold Impl.popCommand
  cases s.pendingCommands <;> rfl

theorem moves_nextId {a : Action} (hm : Moves s a s') : s.nextId ≤ s'.nextId := by
  cases hm with
  | popFront hc => exact Nat.le_of_eq popCommand_nextId.symm
  | queue | execute => exact Nat.le_succ _
  | _ => exact Nat.le_refl _

/-- While command number `id` is in the queue it is `p₀`, reading as `reqs`. -/
structure Waits (p₀ : Pending) (reqs : List LcbReq) (s : Impl) : Prop where
  sound : Sound s
  known : p₀.id < s.nextId
  waits : ∀ p ∈ s.pendingCommands, p.id = p₀.id → p = p₀ ∧ Ready 0 s.heap p.cmd reqs

theorem moves_waits {a : Action} {p₀ : Pending} {reqs : List LcbReq} (hw : Waits p₀ reqs s)
    (hm : Moves s a s') : Waits p₀ reqs s' where
  sound := moves_sound hw.sound hm
  known := Nat.lt_of_lt_of_le hw.known (moves_nextId hm)
  waits p hp hid := by
    rcases moves_mem hm hp with hold | hnew
    · obtain ⟨heq, hr⟩ := hw.waits p hold hid
      exact ⟨heq, hr.frame (moves_frame hw.sound hm hold hp)⟩
    · have := hw.known
      omega

theorem exec_waits {as : List Action} {p₀ : Pending} {reqs : List LcbReq}
    (hw : Waits p₀ reqs s) (h : Run.exec Impl.step s as = some s') : Waits p₀ reqs s' :=
  Run.exec_inv_all (fun _ _ _ hw hst => moves_waits hw (step_moves hst)) hw h

end Step

/-! ## Deferral -/

section Deferred

variable {s : Impl} {k : Kind} {args : List Value} {hd : Header k.Opts} {st : PState}

/-- Among the queue and one more command, a block of that command has one owner: `f` is the
    list of blocks a command's buffers, or its command lists, own. -/
theorem owned_once (hs : Sound s) (hacc : Accepts s k args hd st)
    (f : ∀ {O : Type}, Command O → List Nat)
    (hf : ∀ {O : Type} (c : Command O), (f c).Sublist c.blocks) {x : Nat}
    (hx : x ∈ f (queued k hd st)) :
    (f (queued k hd st) ++ s.pendingCommands.flatMap fun p => f p.cmd).count x = 1 := by
  have hnd := (sound_queue hs hacc).apart
  let p₀ : Pending := { id := s.nextId, kind := k, cmd := queued k hd st }
  have hsub : ((s.pendingCommands ++ [p₀]).flatMap fun p => f p.cmd).Nodup :=
    hnd.sublist (List.Sublist.flatMap_right _ fun p _ =>
      (hf p.cmd).trans (List.sublist_append_left _ _))
  rw [List.flatMap_append, List.flatMap_singleton] at hsub
  have hperm : ((s.pendingCommands.flatMap fun p => f p.cmd) ++ f (queued k hd st)).Perm
      (f (queued k hd st) ++ s.pendingCommands.flatMap fun p => f p.cmd) := List.perm_append_comm
  exact List.count_eq_one_of_mem (hperm.nodup_iff.mp hsub) (List.mem_append_left _ hx)

/-- **Deferring a command does not change its request.** In any reachable state, for any
    accepted request: the copy, once the original is destroyed, makes the call the original would
    have made; each block its commands point into has one owner among the queue and the copy; and
    if the copy is queued, that is the call it makes whenever its turn comes. -/
theorem deferred_request {as : List Action} (hrun : Impl.run as = some s)
    (hacc : Accepts s k args hd st) :
    let c := withCookie k hd st
    let m := c.makePersistent st.heap
    let h := m.2.2.destroy m.1
    ∃ call xs bs, c.execute k.cls st.heap = some call ∧ m.2.1.execute k.cls h = some call ∧
      call.cmds.length = c.commands.ncmds ∧
      m.2.1.texts k.cls h = some xs ∧ m.2.1.arrays k.cls h = some bs ∧
      (∀ x ∈ xs, (m.2.1.bufs.bufList ++
        s.pendingCommands.flatMap fun p => p.cmd.bufs.bufList).count x = 1) ∧
      (∀ x ∈ bs, (m.2.1.commands.owned ++
        s.pendingCommands.flatMap fun p => p.cmd.commands.owned).count x = 1) ∧
      ∀ err s₁ as' s', s.connected = false →
        Impl.step (.makeOperation k args err) s = some s₁ →
        Run.exec Impl.step s₁ as' = some s' →
        ∀ p ∈ s'.pendingCommands, p.id = s.nextId →
          p.cmd.execute p.kind.cls s'.heap = some call := by
  intro c m h
  have hs := run_sound hrun
  obtain ⟨reqs, hhttp, _, hr, hq, _, hgone⟩ := withCookie_ready hacc
  have hh : h = st.heap.alloc .object := hgone
  obtain ⟨xs, hxs, htexts⟩ := texts_ready hq hhttp
  obtain ⟨bs, hbs, harrays⟩ := arrays_ready hq hhttp
  refine ⟨_, xs, bs, execute_ready hr hhttp, ?_, hr.ncmds.symm, ?_, ?_, ?_, ?_, ?_⟩
  · rw [hh]
    exact execute_ready hq hhttp
  · rw [hh]
    exact hxs
  · rw [hh]
    exact hbs
  · intro x hx
    exact owned_once hs hacc (fun c => c.bufs.bufList)
      (fun c => List.sublist_append_left _ _) (htexts x hx)
  · intro x hx
    exact owned_once hs hacc (fun c => c.commands.owned)
      (fun c => List.sublist_append_right _ _) (harrays x hx)
  · intro err s₁ as' s' hc hstep hexec p hp hid
    -- not connected, so what is accepted is queued, under an id no other command has
    let p₀ : Pending := { id := s.nextId, kind := k, cmd := queued k hd st }
    have hw : Waits p₀ reqs s₁ := by
      cases step_moves hstep with
      | reject hjs hacc' hr' => cases hacc.symm.trans hacc'
      | execute hjs hacc' hc' =>
        rw [hc] at hc'
        cases hc'
      | queue hjs hacc' hc' =>
        cases hacc.symm.trans hacc'
        refine ⟨sound_queue hs hacc, Nat.lt_succ_self _, fun p hp hid => ?_⟩
        rcases List.mem_append.mp hp with hp | hp
        · exact absurd hid (Nat.ne_of_lt (hs.ids p hp))
        · rw [List.mem_singleton.mp hp]
          exact ⟨rfl, hq.weaken (Nat.zero_le _)⟩
    obtain ⟨rfl, hready⟩ := (exec_waits hw hexec).waits p hp hid
    exact execute_ready hready hhttp

end Deferred

end Proof

section Example

open scoped SmallRuntime

/-- A get of two keys, queued on a new connection. -/
theorem Proof.deferred_request_get :
    let args : List Value := [.array [.string "a", .string "b"], .undefined, .function 1]
    ∃ hd st call, Proof.Accepts {} .get args hd st ∧
      ((Command.withCookie .get hd st).makePersistent st.heap).2.1.execute Kind.get.cls
        (((Command.withCookie .get hd st).makePersistent st.heap).2.2.destroy
          ((Command.withCookie .get hd st).makePersistent st.heap).1) = some call ∧
      call.cmds.length = 2 := by
  intro args
  obtain ⟨hd, st, hacc, hn⟩ := Outcome.exists_of_check
    (Command.accept Kind.get.cls args (Command.start []))
    (fun _ st => st.commands.ncmds = 2) (by decide +kernel)
  obtain ⟨call, xs, bs, _, hcopy, hlen, _⟩ := Proof.deferred_request (show Impl.run [] = some {} from rfl) hacc
  exact ⟨hd, st, call, hacc, hcopy, hlen.trans (of_decide_eq_true hn)⟩

end Example

end Couchnode
