import Couchnode.Proof.Queue

/-!
# Memory is given back

In every reachable state the live blocks of the heap are those of the commands in the queue, each
in one command's name (`memory_accounted`). So no text buffer, command array or queued command
leaks, whatever was rejected, executed, deferred, cancelled or scheduled on the way, and none that
a waiting command needs is gone. Cookies are no blocks of this heap: they delete themselves, and
one that is never told enough is not deleted.

`Holding h₀ h xs` says it of one request: from `h₀` on, what is live on `h` is `xs`. The validators
keep that (`owning`), once `initialize` has its command list, and however a request ends, what goes
out of scope with it is live and is deleted once (`request_holding`).
-/

set_option autoImplicit false

namespace Couchnode

/-- What goes when a stack object does: the members of a command, on the way to being one. -/
def PState.blocks (s : PState) : List Nat := s.bufs.bufList ++ s.commands.owned

namespace Proof

open Prog

/-! ## One request -/

/-- Since `h₀` the blocks `xs` were allocated and not freed, and no others. -/
structure Holding (h₀ h : Heap) (xs : List Nat) : Prop where
  base : h₀.length ≤ h.length
  live : ∀ x, h₀.length ≤ x → (h.Live x ↔ x ∈ xs)
  fresh : ∀ x ∈ xs, h₀.length ≤ x
  nodup : xs.Nodup

section Holding

variable {h₀ h h' : Heap} {xs ys : List Nat} {l l' : CommandList} {b b' : BufferList}

theorem Holding.start (h : Heap) : Holding h h [] where
  base := Nat.le_refl _
  live x hx := by
    constructor
    · intro hl
      exact absurd hl.lt (Nat.not_lt_of_le hx)
    · intro hm
      cases hm
  fresh x hx := by cases hx
  nodup := List.nodup_nil

theorem Holding.perm (o : Holding h₀ h xs) (hp : xs.Perm ys) : Holding h₀ h ys where
  base := o.base
  live x hx := (o.live x hx).trans hp.mem_iff
  fresh x hx := o.fresh x (hp.mem_iff.mpr hx)
  nodup := hp.nodup_iff.mp o.nodup

/-- One more block. -/
theorem Holding.alloc (o : Holding h₀ h xs) (c : Cell) : Holding h₀ (h.alloc c) (h.length :: xs) where
  base := by
    rw [Blocks.length_alloc]
    exact Nat.le_succ_of_le o.base
  live x hx := by
    rw [Blocks.live_alloc, o.live x hx, List.mem_cons]
    exact or_comm
  fresh x hx := by
    rcases List.mem_cons.mp hx with rfl | hx
    · exact o.base
    · exact o.fresh x hx
  nodup := by
    refine List.nodup_cons.mpr ⟨fun hm => ?_, o.nodup⟩
    -- what is owned is live, and what is live is older
    have hl := (o.live _ (o.fresh _ hm)).mpr hm
    exact absurd hl.lt (Nat.lt_irrefl _)

theorem Holding.put (o : Holding h₀ h xs) {x : Nat} {c : Cell} (hr : h.read x = some c) (c' : Cell) :
    Holding h₀ (h.put x c') xs where
  base := by
    rw [Blocks.length_put]
    exact o.base
  live y hy := (Blocks.live_put (Blocks.live_of_read hr)).trans (o.live y hy)
  fresh := o.fresh
  nodup := o.nodup

/-- A block that goes to the buffers. -/
theorem Holding.push (o : Holding h₀ h (b.bufList ++ ys)) (c : Cell) :
    Holding h₀ (h.alloc c) ((b.bufList ++ [h.length]) ++ ys) := by
  refine (o.alloc c).perm ?_
  rw [List.append_assoc]
  exact List.perm_middle.symm

theorem holding_ensureCurBuf (o : Holding h₀ h (b.bufList ++ ys)) (he : b.ensureCurBuf h = (h', b')) :
    Holding h₀ h' (b'.bufList ++ ys) := by
  unfold BufferList.ensureCurBuf at he
  cases hc : b.curBuf with
  | some p =>
    rw [hc] at he
    cases he
    exact o
  | none =>
    rw [hc] at he
    cases he
    exact o.push _

/-- **`getBuffer` allocates into the list it was called on.** -/
theorem holding_getBuffer {fuel len : Nat} {p : CharPtr} (o : Holding h₀ h (b.bufList ++ ys))
    (hg : BufferList.getBufferFuel fuel len h b = some (p, h', b')) :
    Holding h₀ h' (b'.bufList ++ ys) := by
  induction fuel generalizing h b with
  | zero | succ =>
    unfold BufferList.getBufferFuel at hg
    split at hg
    · cases hg
      exact o
    split at hg
    · cases hg
      exact o.push _
    cases he : b.ensureCurBuf h with
    | mk h₁ b₁ =>
      have o₁ := holding_ensureCurBuf o he
      rw [he] at hg
      simp only at hg
      split at hg
      · split at hg
        · cases hg
          exact o₁
        · cases hg
      · first
        | cases hg
        | next ih _ _ _ => exact ih (b := { b₁ with curBuf := none, bytesUsed := 0 }) o₁ hg

theorem holding_writeBytes {p : CharPtr} {bs : List UInt8} (o : Holding h₀ h xs)
    (hw : h.writeBytes p bs = some h') : Holding h₀ h' xs := by
  unfold Heap.writeBytes at hw
  cases p with
  | null | lit t => cases hw
  | inBlock x off =>
    simp only at hw
    split at hw
    · next old hr =>
      split at hw
      · cases hw
        exact o.put hr _
      · cases hw
    · cases hw

theorem holding_getAt {ix : Nat} {p : CmdPtr} (o : Holding h₀ h xs)
    (hg : l.getAt ix h = some (p, h')) : Holding h₀ h' xs := by
  unfold CommandList.getAt at hg
  split at hg
  · cases hg
    exact o
  split at hg
  · cases hg
    exact o
  split at hg
  · split at hg
    · next ps hr =>
      split at hg
      · cases hg
        exact o.put hr _
      · cases hg
    · cases hg
  · cases hg

/-- An assignment to a command leaves the list its arrays. -/
theorem holding_update {p : CmdPtr} {f : LcbCmd → LcbCmd} (o : Holding h₀ h xs)
    (hu : l.update p f h = some (h', l')) : Holding h₀ h' xs ∧ l'.owned = l.owned := by
  unfold CommandList.update at hu
  cases p with
  | null => cases hu
  | single a =>
    simp only at hu
    split at hu
    · cases hu
      exact ⟨o, rfl⟩
    · cases hu
  | elem x i =>
    simp only at hu
    split at hu
    · next cs hr =>
      split at hu
      · cases hu
        exact ⟨o.put hr _, rfl⟩
      · cases hu
    · cases hu

/-- A list that owned nothing owns its two arrays. -/
theorem holding_initializeList {n : Nat} {r : Bool} (hi : l.initializeList n h = (r, h', l'))
    (hl : l.cmds = .null ∧ l.cmdlist = .null) : Holding h h' l'.owned := by
  unfold CommandList.initializeList at hi
  split at hi
  · next h1 =>
    cases hi
    subst h1
    exact .start h
  split at hi
  · next h1 =>
    cases hi
    have howned : CommandList.owned { l with
        ncmds := n, cmds := .elem h.length 0
        cmdlist := .arr (h.alloc (.cmds (List.replicate n {}))).length } =
        [h.length, (h.alloc (.cmds (List.replicate n {}))).length] := by
      unfold CommandList.owned
      exact if_neg (Nat.not_lt_of_le h1)
    rw [howned]
    exact (((Holding.start h).alloc _).alloc _).perm (List.Perm.swap _ _ _)
  · cases hi
    have howned : CommandList.owned { l with ncmds := n } = [] := by
      unfold CommandList.owned
      simp only [hl.1, hl.2, List.append_nil, ite_self]
    rw [howned]
    exact .start h

end Holding

/-! ## The validators -/

section Validators

variable {h₀ : Heap}

/-- What a request holds, in the middle of it. -/
def HoldsOwn (h₀ : Heap) (s : PState) : Prop := Holding h₀ s.heap s.blocks

theorem holdsOwn_getBuffer (n : Nat) :
    Triple (HoldsOwn h₀) (PState.getBuffer n) (fun _ s => True ∧ HoldsOwn h₀ s) (HoldsOwn h₀) := by
  intro s o
  unfold PState.getBuffer
  cases hg : s.bufs.getBuffer n s.heap with
  | none => trivial
  | some r =>
    obtain ⟨p, h, b⟩ := r
    exact ⟨trivial, holding_getBuffer o hg⟩

theorem holdsOwn_writeBytes {p : CharPtr} (bs : List UInt8) :
    Triple (HoldsOwn h₀) (PState.writeBytes p bs) (fun _ => HoldsOwn h₀) (HoldsOwn h₀) := by
  intro s o
  unfold PState.writeBytes
  cases hw : s.heap.writeBytes p bs with
  | none => trivial
  | some h => exact holding_writeBytes o hw

theorem holdsOwn_getAt (ix : Nat) :
    Triple (HoldsOwn h₀) (PState.getAt ix) (fun _ s => True ∧ HoldsOwn h₀ s) (HoldsOwn h₀) := by
  intro s o
  unfold PState.getAt
  cases hg : s.commands.getAt ix s.heap with
  | none => trivial
  | some r => exact ⟨trivial, holding_getAt o hg⟩

theorem holdsOwn_assign {p : CmdPtr} (f : LcbCmd → LcbCmd) :
    Triple (HoldsOwn h₀) (PState.assign p f) (fun _ => HoldsOwn h₀) (HoldsOwn h₀) := by
  intro s o
  unfold PState.assign
  cases hu : s.commands.update p f s.heap with
  | none => trivial
  | some r =>
    obtain ⟨h, l⟩ := r
    obtain ⟨o', howned⟩ := holding_update o hu
    show Holding h₀ h (s.bufs.bufList ++ l.owned)
    rw [howned]
    exact o'

variable [Runtime]

theorem holdsOwn_initCommandList (n : Nat) :
    Triple (· = Command.start h₀) (Command.initCommandList n) (fun _ => HoldsOwn h₀)
      (HoldsOwn h₀) := by
  rintro s rfl
  have hown {r : Bool} {h : Heap} {l : CommandList}
      (hi : (Command.start h₀).commands.initializeList n (Command.start h₀).heap = (r, h, l)) :
      HoldsOwn h₀ { Command.start h₀ with heap := h, commands := l } :=
    holding_initializeList hi ⟨rfl, rfl⟩
  unfold Command.initCommandList
  split
  · next h l hi => exact hown hi
  · next h l hi => exact hown hi

/-- Nothing is allocated but what is held, and nothing held is freed. -/
def owning (h₀ : Heap) : Walk where
  Inv := HoldsOwn h₀
  Refused := HoldsOwn h₀
  complain := fun _ o => ⟨o, o⟩
  getBuffer := holdsOwn_getBuffer
  offset := fun _ _ => trivial
  writeBytes := fun bs _ => holdsOwn_writeBytes bs
  getAt := holdsOwn_getAt
  assign := fun f _ => holdsOwn_assign f
  keyOptions := fun _ o => o
  htType := fun _ o => o

/-- **However a request ends, it holds what it allocated.** -/
theorem accept_holding (k : Kind) (args : List Value) (h : Heap) :
    Sat (fun _ => HoldsOwn h) (HoldsOwn h) (Command.accept k.cls args (Command.start h)) := by
  have hall : ∀ c, (owning h).allowed c := fun _ => trivial
  have hinit : Triple (· = Command.start h) (Command.initializeCommand k.cls args)
      (fun _ => HoldsOwn h) (HoldsOwn h) :=
    .bind (holdsOwn_initCommandList _) fun _ =>
      options_keeps (W := owning h) (fun c _ => hall c) k args _
  have haccept : Triple (· = Command.start h) (Command.accept k.cls args) (fun _ => HoldsOwn h)
      (HoldsOwn h) :=
    .bind hinit fun hd => .bind (Discipline.process_keeps hall k hd) fun _ => fun _ o => o
  exact haccept _ rfl

end Validators

/-! ## The connection -/

section Connection

variable {s s' : Impl} {k : Kind} {args : List Value} {st : PState} {h : Heap}

/-- Every live block is a queued command's. -/
def Accounted (s : Impl) : Prop :=
  ∀ x, s.heap.Live x ↔ x ∈ s.pendingCommands.flatMap Pending.blocks

/-- When a request goes out of scope, what is live is what was live before it. -/
theorem unwind_live (hf : Fresh h st) (ho : HoldsOwn h st) (x : Nat) :
    (Impl.unwind st).Live x ↔ h.Live x := by
  have hlive : (Impl.unwind st).Live x ↔ st.heap.Live x ∧ x ∉ st.blocks := by
    unfold Impl.unwind BufferList.destroy CommandList.destroy PState.blocks
    rw [Blocks.live_freeAll, Blocks.live_freeAll, List.mem_append, not_or, and_assoc]
    exact and_congr_right fun _ => and_comm
  rw [hlive]
  by_cases hx : x < h.length
  · rw [Blocks.live_congr (hf.bufs.old x hx)]
    refine and_iff_left fun hm => ?_
    exact absurd hx (Nat.not_lt_of_le (ho.fresh x hm))
  · have hle : h.length ≤ x := Nat.le_of_not_lt hx
    rw [ho.live x hle]
    refine iff_of_false (fun hm => hm.2 hm.1) fun hl => ?_
    exact hx hl.lt

/-- Deleting a queued command frees its blocks and no others. -/
theorem deleteObject_live (p : Pending) (h : Heap) (x : Nat) :
    (p.cmd.deleteObject h).Live x ↔ h.Live x ∧ x ∉ p.blocks := by
  have hdestroy : (p.cmd.destroy h).Live x ↔ h.Live x ∧ x ∉ p.cmd.blocks := by
    unfold Command.destroy BufferList.destroy CommandList.destroy Command.blocks
    rw [Blocks.live_freeAll, Blocks.live_freeAll, List.mem_append, not_or, and_assoc]
    exact and_congr_right fun _ => and_comm
  unfold Command.deleteObject Pending.blocks
  cases p.cmd.commands.addr with
  | stack =>
    rw [List.append_nil]
    exact hdestroy
  | heap b =>
    simp only [Blocks.live_free, hdestroy, List.mem_append, List.mem_singleton, not_or, and_assoc]

variable [Runtime]

/-- The front command goes, with its blocks. -/
theorem accounted_pop (ha : Accounted s) (hs : Sound s) {p : Pending} {ps : List Pending}
    (hp : s.pendingCommands = p :: ps) (x : Nat) :
    (p.cmd.deleteObject s.heap).Live x ↔ x ∈ ps.flatMap Pending.blocks := by
  have hapart := hs.apart
  rw [hp, List.flatMap_cons, List.nodup_append] at hapart
  rw [deleteObject_live, ha x, hp, List.flatMap_cons, List.mem_append]
  constructor
  · rintro ⟨hx | hx, hn⟩
    · exact absurd hx hn
    · exact hx
  · intro hx
    exact ⟨.inr hx, fun hm => hapart.2.2 x hm x hx rfl⟩

theorem request_holding (k : Kind) (args : List Value) (h : Heap) :
    (∀ st, Command.accept k.cls args (Command.start h) = .refused st → HoldsOwn h st) ∧
      ∀ hd st, Command.accept k.cls args (Command.start h) = .done hd st → HoldsOwn h st := by
  have hacc := accept_holding k args h
  constructor
  · intro st hr
    rw [hr] at hacc
    exact hacc
  · intro hd st hd
    rw [hd] at hacc
    exact hacc

/-- A command that joins the queue brings what it holds, and the object it now lives in. -/
theorem accounted_queue {hd : Header k.Opts} (ha : Accounted s)
    (hacc : Accepts s k args hd st) (x : Nat) :
    let p : Pending := { id := s.nextId, kind := k, cmd := Command.queued k hd st }
    (st.heap.alloc .object).Live x ↔ x ∈ (s.pendingCommands ++ [p]).flatMap Pending.blocks := by
  intro p
  obtain ⟨_, _, _, _, _, hblocks, _⟩ := withCookie_ready hacc
  have ho := (request_holding k args s.heap).2 hd st hacc
  have hf := accepted_fresh hacc
  have hown : (Command.withCookie k hd st).blocks = st.blocks := rfl
  have haddr : (Command.queued k hd st).commands.addr = .heap st.heap.length := copy_addr _ _
  have hb : p.blocks = st.blocks ++ [st.heap.length] := by
    unfold Pending.blocks
    simp only [p, haddr, hblocks, hown]
  rw [Blocks.live_alloc, List.flatMap_append, List.mem_append, List.flatMap_singleton, ← ha x, hb,
    List.mem_append, List.mem_singleton, ← or_assoc]
  refine or_congr_left ?_
  by_cases hx : x < s.heap.length
  · rw [Blocks.live_congr (hf.bufs.old x hx)]
    refine (or_iff_left fun hm => ?_).symm
    exact absurd hx (Nat.not_lt_of_le (ho.fresh x hm))
  · have hle : s.heap.length ≤ x := Nat.le_of_not_lt hx
    rw [ho.live x hle]
    exact (or_iff_right fun hl => hx hl.lt).symm

/-- **Every step accounts for the memory it leaves.** -/
theorem moves_accounted {a : Action} (ha : Accounted s) (hs : Sound s) (hm : Moves s a s') :
    Accounted s' := by
  cases hm with
  | @reject k args err st r hjs hacc hr =>
    intro x
    have ho := (request_holding k args s.heap).1 st hacc
    exact (unwind_live (refused_fresh hacc) ho x).trans (ha x)
  | queue hjs hacc hc => exact accounted_queue ha hacc
  | @execute k args err hd st call hjs hacc hc hcall =>
    intro x
    have ho := (request_holding k args s.heap).2 hd st hacc
    exact (unwind_live (accepted_fresh hacc) ho x).trans (ha x)
  | scheduled hc hp hg hcall => exact accounted_pop ha hs hp
  | popFront hc =>
    show Accounted { Impl.popCommand s with control := _ }
    unfold Impl.popCommand
    cases hp : s.pendingCommands with
    | nil =>
      intro x
      show s.heap.Live x ↔ x ∈ s.pendingCommands.flatMap Pending.blocks
      exact ha x
    | cons p ps => exact accounted_pop ha hs hp
  | shutdown | shutdownAgain | configured | configIgnored | failed | error | idleFired | drained |
    scheduleFailed | globalError | ret => exact ha

theorem run_accounted {as : List Action} (h : Impl.run as = some s) : Accounted s := by
  have hinit : Accounted {} ∧ Sound {} := by
    refine ⟨fun x => ?_, run_sound (show Impl.run [] = some {} from rfl)⟩
    refine iff_of_false (fun hl => ?_) List.not_mem_nil
    exact absurd hl.lt (Nat.not_lt_zero x)
  have hrun : Accounted s ∧ Sound s :=
    Run.exec_inv_all (I := fun s => Accounted s ∧ Sound s)
      (fun _ _ _ hi hst => ⟨moves_accounted hi.1 hi.2 (step_moves hst),
        moves_sound hi.2 (step_moves hst)⟩) hinit h
  exact hrun.1

/-- **No buffer leaks, and none that is needed is gone.** In every reachable state of the
    connection a text buffer, command array or queued command is live exactly when it belongs to a
    command that waits in the queue. -/
theorem memory_accounted {as : List Action} (h : Impl.run as = some s) (x : Nat) :
    s.heap.Live x ↔ ∃ p ∈ s.pendingCommands, x ∈ p.blocks :=
  (run_accounted h x).trans List.mem_flatMap

/-- **No block is deleted twice.** In every reachable state no block belongs to two queued
    commands, or twice to one. Whatever request comes next, and however it ends, the blocks that
    go out of scope with it are live and distinct, and no queued command has any of them. -/
theorem deleted_once {as : List Action} (h : Impl.run as = some s) :
    (s.pendingCommands.flatMap Pending.blocks).Nodup ∧
      ∀ (k : Kind) (args : List Value) (st : PState),
        (Command.accept k.cls args (Command.start s.heap) = .refused st ∨
          ∃ hd, Command.accept k.cls args (Command.start s.heap) = .done hd st) →
        st.blocks.Nodup ∧ ∀ x ∈ st.blocks, st.heap.Live x ∧
          ∀ p ∈ s.pendingCommands, x ∉ p.blocks := by
  have hs := run_sound h
  refine ⟨hs.apart, ?_⟩
  intro k args st hends
  have ho : HoldsOwn s.heap st := by
    rcases hends with hr | ⟨hd, hd'⟩
    · exact (request_holding k args s.heap).1 st hr
    · exact (request_holding k args s.heap).2 hd st hd'
  refine ⟨ho.nodup, ?_⟩
  intro x hx
  have hle := ho.fresh x hx
  refine ⟨(ho.live x hle).mpr hx, ?_⟩
  intro p hp hxp
  exact absurd (hs.live p hp x hxp) (Nat.not_lt_of_le hle)

end Connection

end Proof

section Example

open scoped SmallRuntime

/-- Two requests wait; the connection comes up and the first of them is sent. -/
def oneLeft : List Action :=
  [.makeOperation .get [.array [.string "a", .string "b"], .undefined, .function 1] 0,
    .makeOperation .get [.string "c", .undefined, .function 2] 0, .onConfig true, .ret, .drain 0]

theorem Proof.memory_accounted_left : ∃ s, Impl.run oneLeft = some s ∧
    s.pendingCommands.length = 1 ∧
    ∀ x, s.heap.Live x ↔ ∃ p ∈ s.pendingCommands, x ∈ p.blocks := by
  obtain ⟨s, hs, htest⟩ := (Option.any_eq_true _ _).mp
    (show (Impl.run oneLeft).any (fun s => s.pendingCommands.length = 1) = true by decide +kernel)
  exact ⟨s, hs, of_decide_eq_true htest, Proof.memory_accounted hs⟩

/-- Two documents to store, the second with an expiry that is no number. -/
def badSecond : List Value :=
  [.object [("d", .object [("value", .string "x")]),
      ("e", .object [("value", .string "y"), ("expiry", .string "soon")])],
    .undefined, .function 3]

/-- The next request is rejected at its second key: the command array and the texts of the first key
    go out of scope, and the request that waits keeps its own. -/
theorem Proof.deleted_once_left : ∃ s st, Impl.run oneLeft = some s ∧
    s.pendingCommands.length = 1 ∧
    Command.accept (Kind.store .set).cls badSecond (Command.start s.heap) = .refused st ∧
    st.blocks.length = 3 ∧ st.blocks.Nodup ∧
    ∀ x ∈ st.blocks, st.heap.Live x ∧ ∀ p ∈ s.pendingCommands, x ∉ p.blocks := by
  obtain ⟨s, hs, htest⟩ := (Option.any_eq_true _ _).mp
    (show (Impl.run oneLeft).any (fun s => s.pendingCommands.length = 1 &&
      match Command.accept (Kind.store .set).cls badSecond (Command.start s.heap) with
      | .refused st => st.blocks.length = 3
      | _ => false) = true by decide +kernel)
  obtain ⟨hlength, htest⟩ := Bool.and_eq_true_iff.mp htest
  cases hacc : Command.accept (Kind.store .set).cls badSecond (Command.start s.heap) with
  | refused st =>
    rw [hacc] at htest
    obtain ⟨hnodup, hblocks⟩ := (Proof.deleted_once hs).2 _ _ st (.inl hacc)
    exact ⟨s, st, hs, of_decide_eq_true hlength, hacc, of_decide_eq_true htest, hnodup, hblocks⟩
  | fault | done =>
    rw [hacc] at htest
    cases htest

end Example

end Couchnode
