import Couchnode.Proof.Errors

/-!
# A request leaves other memory alone

Other commands wait in the queue while a request is lowered, with their text and their command
arrays on the same heap. `Fresh h₀` says that whatever the request holds was allocated since
`h₀` and that every older block is as it was; `tidy h₀` is the discipline of keeping that, so
it holds however the request ends. `unwind_old` is the end of a refused one: its destructors
free nothing that was there before.
-/

set_option autoImplicit false

namespace Couchnode

namespace Proof

open Prog

/-- The buffers are newer than `h₀`, and older blocks are as they were. -/
structure FreshBufs (h₀ h : Heap) (b : BufferList) : Prop where
  base : h₀.length ≤ h.length
  old : ∀ x, x < h₀.length → h.read x = h₀.read x
  list : ∀ x ∈ b.bufList, h₀.length ≤ x
  cur : ∀ x off, b.curBuf = some (x, off) → h₀.length ≤ x

/-- The same, with the command arrays. -/
structure Fresh (h₀ : Heap) (s : PState) : Prop where
  bufs : FreshBufs h₀ s.heap s.bufs
  cmds : ∀ x i, s.commands.cmds = .elem x i → h₀.length ≤ x
  cmdlist : ∀ x, s.commands.cmdlist = .arr x → h₀.length ≤ x

section

variable {h₀ h h' : Heap} {b b' : BufferList}

theorem FreshBufs.alloc (f : FreshBufs h₀ h b) (c : Cell) : FreshBufs h₀ (h.alloc c) b where
  base := by
    have := f.base
    simp only [Blocks.length_alloc]
    omega
  old x hx := by
    rw [Blocks.read_alloc_lt (Nat.lt_of_lt_of_le hx f.base)]
    exact f.old x hx
  list := f.list
  cur := f.cur

/-- A write to a newer block. -/
theorem FreshBufs.put (f : FreshBufs h₀ h b) {x : Nat} (hx : h₀.length ≤ x) (c : Cell) :
    FreshBufs h₀ (h.put x c) b where
  base := by
    rw [Blocks.length_put]
    exact f.base
  old y hy := by
    rw [Blocks.read_put_ne (by omega)]
    exact f.old y hy
  list := f.list
  cur := f.cur

/-- One more block, just allocated, and a current position in it or where it was. -/
theorem FreshBufs.push (f : FreshBufs h₀ h b) (c : Cell) :
    FreshBufs h₀ (h.alloc c) { b with bufList := b.bufList ++ [h.length] } where
  base := (f.alloc c).base
  old := (f.alloc c).old
  list x hx := by
    rcases List.mem_append.mp hx with hx | hx
    · exact f.list x hx
    · rw [List.mem_singleton.mp hx]
      exact f.base
  cur := f.cur

theorem FreshBufs.at_ (f : FreshBufs h₀ h b) {cur : Option (Nat × Nat)} (n : Nat)
    (hc : ∀ x off, cur = some (x, off) → h₀.length ≤ x) :
    FreshBufs h₀ h { b with curBuf := cur, bytesUsed := n } :=
  ⟨f.base, f.old, f.list, hc⟩

theorem ensureCurBuf_fresh (f : FreshBufs h₀ h b) (he : b.ensureCurBuf h = (h', b')) :
    FreshBufs h₀ h' b' := by
  unfold BufferList.ensureCurBuf at he
  cases hc : b.curBuf with
  | some p =>
    rw [hc] at he
    cases he
    exact f
  | none =>
    rw [hc] at he
    cases he
    have hp := f.push (.bytes (List.replicate b.bytesAllocated 0))
    refine ⟨hp.base, hp.old, hp.list, ?_⟩
    intro x off hx
    cases hx
    exact f.base

/-- The pointer, if it is one into a block, leads to a newer block. -/
def FreshText (h₀ : Heap) (p : CharPtr) : Prop := ∀ x off, p = .inBlock x off → h₀.length ≤ x

theorem getBuffer_fresh {fuel len : Nat} {p : CharPtr} (f : FreshBufs h₀ h b)
    (hg : BufferList.getBufferFuel fuel len h b = some (p, h', b')) :
    FreshText h₀ p ∧ FreshBufs h₀ h' b' := by
  induction fuel generalizing h b with
  | zero | succ =>
    unfold BufferList.getBufferFuel at hg
    split at hg
    · cases hg
      exact ⟨fun x off hx => (by cases hx), f⟩
    split at hg
    · cases hg
      refine ⟨?_, f.push _⟩
      intro x off hx
      cases hx
      exact f.base
    cases he : b.ensureCurBuf h with
    | mk h₁ b₁ =>
      have f₁ := ensureCurBuf_fresh f he
      rw [he] at hg
      simp only at hg
      split at hg
      · cases hc : b₁.curBuf with
        | none =>
          rw [hc] at hg
          cases hg
        | some q =>
          obtain ⟨blk, off⟩ := q
          rw [hc] at hg
          cases hg
          refine ⟨?_, f₁.at_ _ ?_⟩
          · intro x o hx
            cases hx
            exact f₁.cur _ _ hc
          · intro x o hx
            cases hx
            exact f₁.cur _ _ hc
      · -- the self-call, from a list without a current block
        first
        | cases hg
        | next ih _ _ _ => exact ih (f₁.at_ 0 (fun _ _ hx => by cases hx)) hg

theorem FreshBufs.freeAll (f : FreshBufs h₀ h b) {xs : List Nat}
    (hxs : ∀ x ∈ xs, h₀.length ≤ x) : FreshBufs h₀ (h.freeAll xs) b where
  base := by
    rw [Blocks.length_freeAll]
    exact f.base
  old x hx := by
    rw [Blocks.read_freeAll fun hm => Nat.not_le_of_lt hx (hxs x hm)]
    exact f.old x hx
  list := f.list
  cur := f.cur

end

section

variable {h₀ : Heap} {s : PState}

/-- The command arrays a fresh request owns are new. -/
theorem Fresh.owned (f : Fresh h₀ s) : ∀ x ∈ s.commands.owned, h₀.length ≤ x := by
  intro x hx
  unfold CommandList.owned at hx
  by_cases h2 : s.commands.ncmds < 2
  · rw [if_pos h2] at hx
    cases hx
  · rw [if_neg h2] at hx
    rcases List.mem_append.mp hx with hx | hx
    · cases hc : s.commands.cmds with
      | elem y i =>
        simp only [hc, List.mem_singleton] at hx
        rw [hx]
        exact f.cmds y i hc
      | null => simp [hc] at hx
      | single a => simp [hc] at hx
    · cases hc : s.commands.cmdlist with
      | arr y =>
        simp only [hc, List.mem_singleton] at hx
        rw [hx]
        exact f.cmdlist y hc
      | null => simp [hc] at hx
      | ofCmds a => simp [hc] at hx

/-- A step on the buffers. -/
theorem Fresh.withBufs (f : Fresh h₀ s) {h : Heap} {b : BufferList} (fb : FreshBufs h₀ h b) :
    Fresh h₀ { s with heap := h, bufs := b } := ⟨fb, f.cmds, f.cmdlist⟩

theorem fresh_start (h : Heap) : Fresh h (Command.start h) where
  bufs := ⟨Nat.le_refl _, fun _ _ => rfl, fun _ hx => absurd hx (by simp [Command.start]),
    fun _ _ hx => absurd hx (by simp [Command.start])⟩
  cmds _ _ hx := absurd hx (by simp [Command.start])
  cmdlist _ hx := absurd hx (by simp [Command.start])

/-- **The destructors of an abandoned request free nothing that was there before.** -/
theorem unwind_old (f : Fresh h₀ s) :
    h₀.length ≤ (Impl.unwind s).length ∧
      ∀ x, x < h₀.length → (Impl.unwind s).read x = h₀.read x := by
  have f' := (f.bufs.freeAll f.owned).freeAll f.bufs.list
  exact ⟨f'.base, f'.old⟩

end

/-! ## The discipline -/

section

variable {h₀ : Heap}

theorem fresh_getBuffer (n : Nat) :
    Triple (Fresh h₀) (PState.getBuffer n) (fun p s => FreshText h₀ p ∧ Fresh h₀ s)
      (Fresh h₀) := by
  intro s f
  unfold PState.getBuffer
  cases hg : s.bufs.getBuffer n s.heap with
  | none => trivial
  | some r =>
    obtain ⟨p, h, b⟩ := r
    obtain ⟨hp, fb⟩ := getBuffer_fresh f.bufs hg
    exact ⟨hp, f.withBufs fb⟩

theorem fresh_writeBytes {p : CharPtr} (bs : List UInt8) (hp : FreshText h₀ p) :
    Triple (Fresh h₀) (PState.writeBytes p bs) (fun _ => Fresh h₀) (Fresh h₀) := by
  intro s f
  unfold PState.writeBytes
  cases hw : s.heap.writeBytes p bs with
  | none => trivial
  | some h =>
    unfold Heap.writeBytes at hw
    cases p with
    | null => cases hw
    | lit t => cases hw
    | inBlock x off =>
      simp only at hw
      split at hw
      · split at hw
        · cases hw
          exact f.withBufs (f.bufs.put (hp x off rfl) _)
        · cases hw
      · cases hw

/-- The pointer, if it is one into an array, leads to a new one. -/
def FreshCmd (h₀ : Heap) (p : CmdPtr) : Prop := ∀ x i, p = .elem x i → h₀.length ≤ x

theorem fresh_getAt (ix : Nat) :
    Triple (Fresh h₀) (PState.getAt ix) (fun p s => FreshCmd h₀ p ∧ Fresh h₀ s) (Fresh h₀) := by
  intro s f
  unfold PState.getAt
  cases hg : s.commands.getAt ix s.heap with
  | none => trivial
  | some r =>
    obtain ⟨p, h⟩ := r
    unfold CommandList.getAt at hg
    split at hg
    · cases hg
      exact ⟨fun x i hx => (by cases hx), f⟩
    split at hg
    · cases hg
      exact ⟨fun x i hx => (by cases hx), f⟩
    split at hg
    · rename_i b i pb hcmds hlist
      split at hg
      · split at hg
        · cases hg
          refine ⟨?_, f.withBufs (f.bufs.put (f.cmdlist pb hlist) _)⟩
          intro x j hx
          cases hx
          exact f.cmds b i hcmds
        · cases hg
      · cases hg
    · cases hg

theorem fresh_assign {p : CmdPtr} (g : LcbCmd → LcbCmd) (hp : FreshCmd h₀ p) :
    Triple (Fresh h₀) (PState.assign p g) (fun _ => Fresh h₀) (Fresh h₀) := by
  intro s f
  unfold PState.assign
  cases hu : s.commands.update p g s.heap with
  | none => trivial
  | some r =>
    obtain ⟨h, l⟩ := r
    unfold CommandList.update at hu
    cases p with
    | null => cases hu
    | single a =>
      simp only at hu
      split at hu
      · cases hu
        exact ⟨f.bufs, f.cmds, f.cmdlist⟩
      · cases hu
    | elem x i =>
      simp only at hu
      split at hu
      · split at hu
        · cases hu
          exact f.withBufs (f.bufs.put (hp x i rfl) _)
        · cases hu
      · cases hu

theorem fresh_initList {n : Nat} {s : PState} {r : Bool} {h : Heap} {l : CommandList}
    (he : s.commands.initializeList n s.heap = (r, h, l)) (f : Fresh h₀ s) :
    Fresh h₀ { s with heap := h, commands := l } := by
  unfold CommandList.initializeList at he
  split at he
  · cases he
    exact ⟨f.bufs, fun _ _ hx => (by cases hx), fun _ hx => (by cases hx)⟩
  split at he
  · cases he
    refine ⟨(f.bufs.alloc _).alloc _, ?_, ?_⟩
    · intro x i hx
      cases hx
      exact f.bufs.base
    · intro x hx
      cases hx
      exact (f.bufs.alloc (.cmds (List.replicate n {}))).base
  · cases he
    exact ⟨f.bufs, f.cmds, f.cmdlist⟩

variable [Runtime]

/-- Touching nothing that is older than the request. -/
def tidy (h₀ : Heap) : Discipline where
  Inv := Fresh h₀
  Refused := Fresh h₀
  text := FreshText h₀
  cmd := FreshCmd h₀
  complain := fun _ f => ⟨⟨f.bufs, f.cmds, f.cmdlist⟩, ⟨f.bufs, f.cmds, f.cmdlist⟩⟩
  getBuffer := fresh_getBuffer
  offset := fun {p} n hp x off hx => by
    cases p with
    | inBlock y o =>
      cases hx
      exact hp x o rfl
    | null => cases hx
    | lit t => cases hx
  writeBytes := fresh_writeBytes
  getAt := fresh_getAt
  assign := fresh_assign
  initList := fresh_initList
  keyOptions := fun _ f => ⟨f.bufs, f.cmds, f.cmdlist⟩
  htType := fun _ f => ⟨f.bufs, f.cmds, f.cmdlist⟩

/-- **However a request ends, older memory is as it was.** -/
theorem accept_tidy (k : Kind) (args : List Value) (h : Heap) :
    Sat (fun _ => Fresh h) (Fresh h) (Command.accept k.cls args (Command.start h)) :=
  accept_keeps (D := tidy h) (fun _ => trivial) k args _ (fresh_start h)

variable {k : Kind} {args : List Value} {h : Heap} {st : PState}

theorem accepted_fresh {hd : Header k.Opts}
    (hacc : Command.accept k.cls args (Command.start h) = .done hd st) : Fresh h st := by
  have := accept_tidy k args h
  rw [hacc] at this
  exact this

theorem refused_fresh (hr : Command.accept k.cls args (Command.start h) = .refused st) :
    Fresh h st := by
  have := accept_tidy k args h
  rw [hr] at this
  exact this

end

end Proof

end Couchnode
