import Couchnode.Native.Operation
import Couchnode.Proof.Memory

/-!
# The shape of a command list

`ListShape h₀ h l n entered cmds` says how a list of `n` commands lies in memory: in the
object itself, or in an array with a pointer array next to it, the first `entered` pointers
being set. `cmds` are the commands as they are now. `l.ptr i` is the address of the `i`-th one
in either representation; `getAt` returns it, `update` writes through it, and `getList` ends
up listing all of them.

The blocks are at or beyond `h₀`: they did not exist before the request.
-/

set_option autoImplicit false

namespace Couchnode

/-- The address of the `i`-th command. -/
def CommandList.ptr (l : CommandList) (i : Nat) : CmdPtr :=
  match l.cmds with
  | .elem b j => .elem b (j + i)
  | p => p

namespace Proof

/-- How a command list lies in memory. -/
inductive ListShape (h₀ : Nat) (h : Heap) (l : CommandList) :
    Nat → Nat → List LcbCmd → Prop where
  | single {entered : Nat} (hn : l.ncmds = 1) (hc : l.cmds = .single l.addr)
      (hl : l.cmdlist = .ofCmds l.addr) : ListShape h₀ h l 1 entered [l.singleCmd]
  | array {n entered cb pb : Nat} {cmds : List LcbCmd} {ps : List (Option CmdPtr)}
      (hn : l.ncmds = n) (h2 : 2 ≤ n) (hc : l.cmds = .elem cb 0) (hl : l.cmdlist = .arr pb)
      (hcb : h.read cb = some (.cmds cmds)) (hpb : h.read pb = some (.ptrs ps))
      (hclen : cmds.length = n) (hplen : ps.length = n) (hne : cb ≠ pb)
      (hcf : h₀ ≤ cb) (hpf : h₀ ≤ pb)
      (hent : ∀ i, i < entered → i < n → ps[i]? = some (some (.elem cb i))) :
      ListShape h₀ h l n entered cmds

/-- A step that touches command arrays from `h₀` on only: the text blocks are as they were. -/
structure TextSame (h₀ : Nat) (h h' : Heap) : Prop where
  old : ∀ x, x < h₀ → h'.read x = h.read x
  text : ∀ x bs, h.read x = some (.bytes bs) → h'.read x = some (.bytes bs)
  length : h'.length = h.length

theorem TextSame.refl (h₀ : Nat) (h : Heap) : TextSame h₀ h h :=
  ⟨fun _ _ => rfl, fun _ _ hr => hr, rfl⟩

theorem TextSame.stored {h₀ : Nat} {h h' : Heap} {b : BufferList} (t : TextSame h₀ h h') {p : CharPtr}
    {bs : List UInt8} (hs : Stored h b p bs) : Stored h' b p bs := by
  cases p with
  | null => exact hs
  | lit s => exact hs
  | inBlock blk off =>
    obtain ⟨⟨hm, ⟨cs, hr, hl⟩, hf⟩, ds, hr', hsl⟩ := hs
    exact ⟨⟨hm, ⟨cs, t.text _ _ hr, hl⟩, hf⟩, ds, t.text _ _ hr', hsl⟩

theorem TextSame.bufOk {h₀ : Nat} {h h' : Heap} {b : BufferList} (t : TextSame h₀ h h')
    (ok : BufOk h b) : BufOk h' b where
  live x hx := by
    obtain ⟨bs, hr⟩ := ok.live x hx
    exact ⟨bs, t.text _ _ hr⟩
  nodup := ok.nodup
  cur blk off hc := by
    obtain ⟨hm, ho, hu, bs, hr, hl⟩ := ok.cur blk off hc
    exact ⟨hm, ho, hu, bs, t.text _ _ hr, hl⟩
  reset := ok.reset

theorem textSame_put {h₀ : Nat} {h : Heap} {x : Nat} {c c' : Cell} (hx : h₀ ≤ x)
    (hr : h.read x = some c) (hc : ∀ bs, c ≠ .bytes bs) : TextSame h₀ h (h.put x c') where
  old y hy := Blocks.read_put_ne (by omega)
  text y bs hy := by
    by_cases hxy : y = x
    · subst hxy
      rw [hr] at hy
      cases hy
      exact absurd rfl (hc bs)
    · rw [Blocks.read_put_ne hxy]
      exact hy
  length := Blocks.length_put

section

variable {h₀ n entered : Nat} {h h' : Heap} {l : CommandList} {cmds : List LcbCmd}

theorem ListShape.length (s : ListShape h₀ h l n entered cmds) : cmds.length = n := by
  cases s with
  | single => rfl
  | array _ _ _ _ _ _ hclen => exact hclen

theorem ListShape.ncmds (s : ListShape h₀ h l n entered cmds) : l.ncmds = n := by
  cases s with
  | single hn => exact hn
  | array hn => exact hn

/-- Buffer steps leave the command arrays alone. -/
theorem ListShape.kept {b b' : BufferList} (s : ListShape h₀ h l n entered cmds)
    (k : Kept h b h' b') : ListShape h₀ h' l n entered cmds := by
  cases s with
  | single hn hc hl => exact .single hn hc hl
  | array hn h2 hc hl hcb hpb hclen hplen hne hcf hpf hent =>
    exact .array hn h2 hc hl (k.other _ _ (fun bs => by simp) hcb)
      (k.other _ _ (fun bs => by simp) hpb) hclen hplen hne hcf hpf hent

/-- `initialize` for at least one command: all of them zeroed, no pointer entered. -/
theorem initializeList_spec (hn : 0 < n) (h : Heap) (l : CommandList) :
    ∃ h' l', l.initializeList n h = (true, h', l') ∧ l'.addr = l.addr ∧
      ListShape h.length h' l' n 0 (List.replicate n {}) ∧ h.length ≤ h'.length ∧
      ∀ x, x < h.length → h'.read x = h.read x := by
  by_cases h1 : n = 1
  · subst h1
    refine ⟨h, { l with
      ncmds := 1, cmds := .single l.addr, cmdlist := .ofCmds l.addr, singleCmd := {} },
      by simp [CommandList.initializeList], rfl, .single rfl rfl rfl, Nat.le_refl _,
      fun _ _ => rfl⟩
  · have h2 : n > 1 := by omega
    let h₁ := h.alloc (.cmds (List.replicate n {}))
    refine ⟨h₁.alloc (.ptrs (List.replicate n none)),
      { l with ncmds := n, cmds := .elem h.length 0, cmdlist := .arr h₁.length },
      by simp only [CommandList.initializeList, if_neg h1, if_pos h2]; rfl, rfl, ?_,
      by simp [h₁]; omega, fun x hx => ?_⟩
    swap
    · rw [Blocks.read_alloc_lt (by simp [h₁]; omega), Blocks.read_alloc_lt hx]
    refine .array rfl h2 rfl rfl (Blocks.read_alloc Blocks.read_alloc_new)
      Blocks.read_alloc_new (by simp) (by simp) (by simp [h₁]) (Nat.le_refl _) (by simp [h₁]) ?_
    intro i hi
    exact absurd hi (Nat.not_lt_zero i)

/-- `getAt` of the next command enters its pointer. -/
theorem getAt_spec (s : ListShape h₀ h l n entered cmds) (hlt : entered < n) :
    ∃ h', l.getAt entered h = some (l.ptr entered, h') ∧
      ListShape h₀ h' l n (entered + 1) cmds ∧ TextSame h₀ h h' := by
  cases s with
  | single hn hc hl =>
    refine ⟨h, ?_, .single hn hc hl, .refl h₀ h⟩
    have h0 : entered = 0 := by omega
    simp [CommandList.getAt, CommandList.ptr, hn, h0, hc]
  | array hn h2 hc hl hcb hpb hclen hplen hne hcf hpf hent =>
    rename_i cb pb ps
    have hix : ¬ entered = l.ncmds := by omega
    have h1 : ¬ l.ncmds = 1 := by omega
    refine ⟨h.put pb (.ptrs (ps.set entered (some (.elem cb entered)))), ?_, ?_,
      textSame_put hpf hpb (fun bs => by simp)⟩
    · have hroom : entered < ps.length := by omega
      simp [CommandList.getAt, CommandList.ptr, hix, h1, hc, hl, hpb, hroom]
    · refine .array hn h2 hc hl (by rw [Blocks.read_put_ne hne]; exact hcb)
        (Blocks.read_put_self (Blocks.lt_of_read hpb)) hclen (by simpa using hplen) hne hcf hpf
        fun i hi hin => ?_
      by_cases hie : i = entered
      · subst hie
        simp [hplen, hin]
      · rw [List.getElem?_set_ne (Ne.symm hie)]
        exact hent i (by omega) hin

/-- Reading the `i`-th command. -/
theorem deref_ptr (s : ListShape h₀ h l n entered cmds) {i : Nat} (hi : i < n) :
    l.deref (l.ptr i) h = cmds[i]? := by
  cases s with
  | single hn hc hl =>
    have h0 : i = 0 := by omega
    simp [CommandList.ptr, CommandList.deref, hc, h0]
  | array hn h2 hc hl hcb hpb hclen hplen hne hcf hpf hent =>
    simp [CommandList.ptr, CommandList.deref, hc, hcb]

/-- Writing it. -/
theorem update_spec (s : ListShape h₀ h l n entered cmds) {i : Nat} {c : LcbCmd}
    (hi : cmds[i]? = some c) (f : LcbCmd → LcbCmd) :
    ∃ h' l', l.update (l.ptr i) f h = some (h', l') ∧ l'.addr = l.addr ∧ l'.ptr = l.ptr ∧
      ListShape h₀ h' l' n entered (cmds.set i (f c)) ∧ TextSame h₀ h h' := by
  cases s with
  | single hn hc hl =>
    have h0 : i = 0 := by
      by_contra h0
      rw [List.getElem?_eq_none (by simp; omega)] at hi
      cases hi
    subst h0
    have hcc : l.singleCmd = c := by simpa using hi
    refine ⟨h, { l with singleCmd := f l.singleCmd }, ?_, rfl, rfl, ?_, .refl h₀ h⟩
    · simp [CommandList.update, CommandList.ptr, hc]
    · rw [← hcc]
      exact .single hn hc hl
  | array hn h2 hc hl hcb hpb hclen hplen hne hcf hpf hent =>
    rename_i cb pb ps
    refine ⟨h.put cb (.cmds (cmds.set i (f c))), l, ?_, rfl, rfl, ?_,
      textSame_put hcf hcb (fun bs => by simp)⟩
    · simp [CommandList.update, CommandList.ptr, hc, hcb, hi]
    · exact .array hn h2 hc hl (Blocks.read_put_self (Blocks.lt_of_read hcb))
        (by rw [Blocks.read_put_ne (Ne.symm hne)]; exact hpb) (by simpa using hclen) hplen hne
        hcf hpf hent

/-- With every pointer entered, `getList` lists every command. -/
theorem getList_spec (s : ListShape h₀ h l n n cmds) :
    l.getList h = some ((List.range n).map l.ptr) := by
  cases s with
  | single hn hc hl =>
    simp [CommandList.getList, hl, hn, CommandList.ptr, hc]
  | array hn h2 hc hl hcb hpb hclen hplen hne hcf hpf hent =>
    rename_i cb pb ps
    have hps : ps = (List.range n).map fun i => some (l.ptr i) := by
      apply List.ext_getElem?
      intro i
      by_cases hi : i < n
      · rw [hent i hi hi]
        simp [hi, CommandList.ptr, hc]
      · rw [List.getElem?_eq_none (by omega), List.getElem?_eq_none (by simp; omega)]
    have hall : ∀ is : List Nat, (is.map fun i => some (l.ptr i)).mapM id =
        some (is.map l.ptr) := by
      intro is
      induction is with
      | nil => rfl
      | cons i is ih => simp [List.mapM_cons, ih]
    have htake : ps.take l.ncmds = ps := List.take_of_length_le (by omega)
    simp only [CommandList.getList, hl, hpb, hplen, hn, Nat.le_refl, if_true]
    rw [← hn, htake, hps, hn]
    exact hall _

end

end Proof

end Couchnode
