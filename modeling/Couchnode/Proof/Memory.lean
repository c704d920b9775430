import Couchnode.Native.ValueFormat

/-!
# What `BufferList` promises

The invariant `BufOk` ties a buffer list to the heap: its blocks are live and distinct, and
the current block is carved from the left, everything at or beyond `bytesUsed` being free.
Text is `Stored` when it lies in a block of the list and, in the current block, left of that
frontier. Two facts are all that lowering needs:

* `getBuffer_spec` — a request for `n > 0` bytes yields a region of a block of the list that
  begins behind every stored text; nothing stored moves, and the self-call happens at most once;
* `writeBytes_spec` — writing into such a region stores the text there and leaves every
  other stored text as it was.
-/

set_option autoImplicit false

namespace Couchnode

namespace Proof

/-- The blocks of a buffer list and its current position, against the heap. -/
structure BufOk (h : Heap) (b : BufferList) : Prop where
  live : ∀ blk ∈ b.bufList, ∃ bs, h.read blk = some (.bytes bs)
  nodup : b.bufList.Nodup
  cur : ∀ blk off, b.curBuf = some (blk, off) → blk ∈ b.bufList ∧ off = b.bytesUsed ∧
    b.bytesUsed ≤ b.bytesAllocated ∧
    ∃ bs, h.read blk = some (.bytes bs) ∧ bs.length = b.bytesAllocated
  reset : b.curBuf = none → b.bytesUsed = 0

/-- The `n` bytes at `off` of a block are inside the block and behind the frontier. -/
def Reserved (h : Heap) (b : BufferList) (blk off n : Nat) : Prop :=
  blk ∈ b.bufList ∧ (∃ cs, h.read blk = some (.bytes cs) ∧ off + n ≤ cs.length) ∧
    ∀ o, b.curBuf = some (blk, o) → off + n ≤ o

/-- The pointer leads to this text, and no later buffer overlaps it. -/
def Stored (h : Heap) (b : BufferList) : CharPtr → List UInt8 → Prop
  | .null, bs => bs = []
  | .lit s, bs => bs = utf8 s
  | .inBlock blk off, bs =>
    Reserved h b blk off bs.length ∧
      ∃ cs, h.read blk = some (.bytes cs) ∧ slice off bs.length cs = bs

/-- A pointer to `len` bytes and a region share no byte. -/
def Apart (p : CharPtr) (len blk off n : Nat) : Prop :=
  match p with
  | .inBlock blk' off' => blk' ≠ blk ∨ off' + len ≤ off ∨ off + n ≤ off'
  | _ => True

/-- The bytes end where the region begins, if they are in its block. -/
def Behind (p : CharPtr) (len blk off : Nat) : Prop :=
  match p with
  | .inBlock blk' off' => blk' ≠ blk ∨ off' + len ≤ off
  | _ => True

theorem Behind.apart {p : CharPtr} {len blk off : Nat} (h : Behind p len blk off) (n : Nat) :
    Apart p len blk off n := by
  cases p with
  | null | lit s => trivial
  | inBlock blk' off' =>
    rcases h with hne | hle
    · exact .inl hne
    · exact .inr (.inl hle)

/-- What any step on the buffers leaves alone: blocks that are not text, and the ownership
    of blocks that were there before. -/
structure Kept (h : Heap) (b : BufferList) (h' : Heap) (b' : BufferList) : Prop where
  other : ∀ x c, (∀ bs, c ≠ .bytes bs) → h.read x = some c → h'.read x = some c
  old : ∀ x, x < h.length → x ∉ b'.bufList → h'.read x = h.read x
  length : h.length ≤ h'.length
  mine : ∀ x ∈ b'.bufList, x ∈ b.bufList ∨ h.length ≤ x
  more : ∀ x ∈ b.bufList, x ∈ b'.bufList
  stored : ∀ p bs, Stored h b p bs → Stored h' b' p bs

theorem Kept.refl (h : Heap) (b : BufferList) : Kept h b h b :=
  ⟨fun _ _ _ hr => hr, fun _ _ _ => rfl, Nat.le_refl _, fun _ hx => .inl hx, fun _ hx => hx,
    fun _ _ hs => hs⟩

theorem Kept.trans {h₁ h₂ h₃ : Heap} {b₁ b₂ b₃ : BufferList} (k : Kept h₁ b₁ h₂ b₂)
    (k' : Kept h₂ b₂ h₃ b₃) : Kept h₁ b₁ h₃ b₃ where
  other x c hc hr := k'.other x c hc (k.other x c hc hr)
  old x hx hn := by
    rw [k'.old x (Nat.lt_of_lt_of_le hx k.length) hn]
    exact k.old x hx fun hm => hn (k'.more x hm)
  length := Nat.le_trans k.length k'.length
  mine x hx := by
    rcases k'.mine x hx with hx | hx
    · exact k.mine x hx
    · exact .inr (Nat.le_trans k.length hx)
  more x hx := k'.more x (k.more x hx)
  stored p bs hs := k'.stored p bs (k.stored p bs hs)

theorem BufOk.empty (h : Heap) : BufOk h {} :=
  ⟨fun _ hb => absurd hb (by simp), List.nodup_nil, fun _ _ hc => absurd hc (by simp),
    fun _ => rfl⟩

/-! ## A fresh block -/

/-- Blocks of the list keep their content when the heap grows. -/
theorem BufOk.lt {h : Heap} {b : BufferList} (ok : BufOk h b) {blk : Nat}
    (hb : blk ∈ b.bufList) : blk < h.length := by
  obtain ⟨bs, hr⟩ := ok.live blk hb
  exact Blocks.lt_of_read hr

/-- Adding a fresh text block to the list moves nothing. -/
theorem kept_push {h : Heap} {b : BufferList} (cs : List UInt8) (cur : Option (Nat × Nat))
    (used : Nat) (hcur : ∀ blk o, cur = some (blk, o) →
      b.curBuf = some (blk, o) ∨ blk = h.length) (ok : BufOk h b) :
    Kept h b (h.alloc (.bytes cs))
      { b with bufList := b.bufList ++ [h.length], curBuf := cur, bytesUsed := used } where
  other x c _ hr := Blocks.read_alloc hr
  old x hx _ := Blocks.read_alloc_lt hx
  length := by simp
  mine x hx := by
    rcases List.mem_append.mp hx with hx | hx
    · exact .inl hx
    · exact .inr (Nat.le_of_eq (List.mem_singleton.mp hx).symm)
  more x hx := List.mem_append_left _ hx
  stored p bs hs := by
    cases p with
    | null => exact hs
    | lit s => exact hs
    | inBlock blk off =>
      obtain ⟨⟨hmem, ⟨ds, hr, hlen⟩, hfront⟩, es, hr', hsl⟩ := hs
      refine ⟨⟨List.mem_append_left _ hmem, ⟨ds, Blocks.read_alloc hr, hlen⟩, fun o ho => ?_⟩,
        es, Blocks.read_alloc hr', hsl⟩
      rcases hcur blk o ho with ho | rfl
      · exact hfront o ho
      · exact absurd (ok.lt hmem) (Nat.lt_irrefl _)

theorem bufOk_push {h : Heap} {b : BufferList} (ok : BufOk h b) (cs : List UInt8) :
    BufOk (h.alloc (.bytes cs)) { b with bufList := b.bufList ++ [h.length] } where
  live blk hb := by
    rcases List.mem_append.mp hb with hb | hb
    · obtain ⟨bs, hr⟩ := ok.live blk hb
      exact ⟨bs, Blocks.read_alloc hr⟩
    · rw [List.mem_singleton.mp hb]
      exact ⟨cs, Blocks.read_alloc_new⟩
  nodup := by
    rw [List.nodup_append]
    refine ⟨ok.nodup, by simp, fun x hx y hy he => ?_⟩
    rw [List.mem_singleton.mp hy] at he
    exact Nat.lt_irrefl _ (he ▸ ok.lt hx)
  cur blk off hc := by
    obtain ⟨hm, ho, hu, bs, hr, hl⟩ := ok.cur blk off hc
    exact ⟨List.mem_append_left _ hm, ho, hu, bs, Blocks.read_alloc hr, hl⟩
  reset hc := ok.reset hc

/-- After `ensureCurBuf` there is a current block, and nothing has moved. -/
theorem ensureCurBuf_spec {h : Heap} {b : BufferList} (ok : BufOk h b) :
    ∃ blk off h' b', b.ensureCurBuf h = (h', b') ∧ b'.curBuf = some (blk, off) ∧
      b'.bytesAllocated = b.bytesAllocated ∧ b'.bytesUsed = b.bytesUsed ∧
      BufOk h' b' ∧ Kept h b h' b' := by
  cases hc : b.curBuf with
  | some p =>
    obtain ⟨blk, off⟩ := p
    exact ⟨blk, off, h, b, by simp [BufferList.ensureCurBuf, hc], hc, rfl, rfl, ok, .refl h b⟩
  | none =>
    have hu := ok.reset hc
    refine ⟨h.length, 0, h.alloc (.bytes (List.replicate b.bytesAllocated 0)),
      { b with curBuf := some (h.length, 0), bufList := b.bufList ++ [h.length] },
      by simp only [BufferList.ensureCurBuf, hc], rfl, rfl, rfl, ?_, ?_⟩
    · have hp := bufOk_push ok (List.replicate b.bytesAllocated 0)
      refine ⟨hp.live, hp.nodup, fun blk off hcur => ?_, fun hn => by cases hn⟩
      cases hcur
      exact ⟨by simp, hu.symm, by simp [hu], _, Blocks.read_alloc_new, by simp⟩
    · exact kept_push _ _ _ (fun blk o ho => by cases ho; exact .inr rfl) ok

/-! ## `getBuffer` -/

section Carve

variable {h : Heap} {b : BufferList} {blk off n : Nat}

/-- Taking `n` bytes at the frontier of the current block. -/
theorem carve_spec (ok : BufOk h b) (hc : b.curBuf = some (blk, off))
    (hn : n < b.bytesAvailable) :
    let b' := { b with bytesUsed := b.bytesUsed + n, curBuf := some (blk, off + n) }
    BufOk h b' ∧ Kept h b h b' ∧ Reserved h b' blk off n ∧
      ∀ p bs, Stored h b p bs → Behind p bs.length blk off := by
  obtain ⟨hmem, hoff, hle, cs, hr, hlen⟩ := ok.cur blk off hc
  simp only [BufferList.bytesAvailable] at hn
  refine ⟨⟨ok.live, ok.nodup, fun x o ho => ?_, fun hnone => by cases hnone⟩,
    ⟨fun _ _ _ hr => hr, fun _ _ _ => rfl, Nat.le_refl _, fun _ hx => .inl hx,
      fun _ hx => hx, fun p bs hs => ?_⟩,
    ⟨hmem, ⟨cs, hr, by omega⟩, fun o ho => ?_⟩, fun p bs hs => ?_⟩
  · cases ho
    exact ⟨hmem, by simp [hoff], by simp only; omega, cs, hr, hlen⟩
  · cases p with
    | null => exact hs
    | lit s => exact hs
    | inBlock x o =>
      obtain ⟨⟨hm, hcs, hfront⟩, htext⟩ := hs
      refine ⟨⟨hm, hcs, fun o' ho' => ?_⟩, htext⟩
      cases ho'
      have := hfront off hc
      omega
  · cases ho
    exact Nat.le_refl _
  · -- stored text ends at the old frontier, where the new region starts
    cases p with
    | null => trivial
    | lit s => trivial
    | inBlock x o =>
      by_cases hx : x = blk
      · subst hx
        exact .inr (hs.1.2.2 off hc)
      · exact .inl hx

/-- Giving up the current block. -/
theorem reset_spec (ok : BufOk h b) :
    let b' := { b with curBuf := none, bytesUsed := 0 }
    BufOk h b' ∧ Kept h b h b' := by
  refine ⟨⟨ok.live, ok.nodup, fun x o ho => (by cases ho), fun _ => rfl⟩,
    ⟨fun _ _ _ hr => hr, fun _ _ _ => rfl, Nat.le_refl _, fun _ hx => .inl hx,
      fun _ hx => hx, fun p bs hs => ?_⟩⟩
  cases p with
  | null => exact hs
  | lit s => exact hs
  | inBlock x o => exact ⟨⟨hs.1.1, hs.1.2.1, fun o' ho' => by cases ho'⟩, hs.2⟩

/-- A request no smaller than a block gets a block of its own. -/
theorem ownBlock_spec (ok : BufOk h b) :
    let h' := h.alloc (.bytes (List.replicate n 0))
    let b' := { b with bufList := b.bufList ++ [h.length] }
    BufOk h' b' ∧ Kept h b h' b' ∧ Reserved h' b' h.length 0 n ∧
      ∀ p bs, Stored h b p bs → Behind p bs.length h.length 0 := by
  refine ⟨bufOk_push ok _, kept_push _ _ _ (fun blk o ho => .inl ho) ok,
    ⟨by simp, ⟨_, Blocks.read_alloc_new, by simp⟩, fun o ho => ?_⟩, fun p bs hs => ?_⟩
  · exact absurd (ok.lt (ok.cur _ _ ho).1) (Nat.lt_irrefl _)
  · cases p with
    | null => trivial
    | lit s => trivial
    | inBlock x o => exact .inl (Nat.ne_of_lt (ok.lt hs.1.1))

end Carve

/-- **`getBuffer` hands out a region of its own.** One unit of fuel is enough: the self-call
    starts a fresh block, and a request that reaches it is smaller than a block. -/
theorem getBuffer_spec {h : Heap} {b : BufferList} (ok : BufOk h b) {n : Nat} (hn : 0 < n) :
    ∃ blk off h' b', b.getBuffer n h = some (.inBlock blk off, h', b') ∧ BufOk h' b' ∧
      Kept h b h' b' ∧ Reserved h' b' blk off n ∧
      ∀ p bs, Stored h b p bs → Behind p bs.length blk off := by
  have hn0 : ¬ n = 0 := by omega
  by_cases hbig : b.bytesAllocated ≤ n
  · obtain ⟨hok, hk, hres, hap⟩ := ownBlock_spec (n := n) ok
    exact ⟨h.length, 0, _, _,
      by simp [BufferList.getBuffer, BufferList.getBufferFuel, hn0, hbig], hok, hk, hres, hap⟩
  obtain ⟨blk, off, h₁, b₁, he, hc, halloc, _, ok₁, k₁⟩ := ensureCurBuf_spec ok
  by_cases hroom : n < b₁.bytesAvailable
  · obtain ⟨hok, hk, hres, hap⟩ := carve_spec ok₁ hc hroom
    refine ⟨blk, off, h₁, _, ?_, hok, k₁.trans hk, hres, fun p bs hs => hap p bs (k₁.stored p bs hs)⟩
    simp [BufferList.getBuffer, BufferList.getBufferFuel, hn0, hbig, he, hroom, hc]
  · -- the current block is full: the self-call, from a list without a current block
    obtain ⟨ok₂, k₂⟩ := reset_spec ok₁
    obtain ⟨blk', off', h₃, b₃, he', hc', halloc', hused', ok₃, k₃⟩ := ensureCurBuf_spec ok₂
    have hroom' : n < b₃.bytesAvailable := by
      simp only [BufferList.bytesAvailable, halloc', hused', halloc]
      omega
    obtain ⟨hok, hk, hres, hap⟩ := carve_spec ok₃ hc' hroom'
    refine ⟨blk', off', h₃, _, ?_, hok, k₁.trans (k₂.trans (k₃.trans hk)), hres,
      fun p bs hs => hap p bs (k₃.stored p bs (k₂.stored p bs (k₁.stored p bs hs)))⟩
    have hbig' : ¬ b₁.bytesAllocated ≤ n := by rw [halloc]; exact hbig
    simp [BufferList.getBuffer, BufferList.getBufferFuel, hn0, hbig, he, hroom, hbig', he',
      hroom', hc']

/-! ## Writing -/

section Overwrite

variable {h : Heap} {b : BufferList} {blk off : Nat} {bs old : List UInt8}

/-- A block written in place stays a block of its size. -/
theorem overwrite_ok (ok : BufOk h b) (hr : h.read blk = some (.bytes old))
    (hfit : off + bs.length ≤ old.length) :
    BufOk (h.put blk (.bytes (splice off bs old))) b := by
  have hnew := Blocks.read_put_self (c := .bytes (splice off bs old)) (Blocks.lt_of_read hr)
  refine ⟨fun x hx => ?_, ok.nodup, fun x o hc => ?_, ok.reset⟩
  · by_cases hx' : x = blk
    · exact ⟨_, by rw [hx']; exact hnew⟩
    · rw [Blocks.read_put_ne hx']
      exact ok.live x hx
  · obtain ⟨hm, ho, hu, ds, hd, hdl⟩ := ok.cur x o hc
    refine ⟨hm, ho, hu, ?_⟩
    by_cases hx' : x = blk
    · subst hx'
      rw [hr] at hd
      cases hd
      exact ⟨_, hnew, by rw [length_splice hfit]; exact hdl⟩
    · exact ⟨ds, by rw [Blocks.read_put_ne hx']; exact hd, hdl⟩

/-- A text elsewhere in the block lies before or after what is written. -/
theorem overwrite_stored (hr : h.read blk = some (.bytes old))
    (hfit : off + bs.length ≤ old.length) {p : CharPtr} {cs : List UInt8} (hs : Stored h b p cs)
    (hap : Apart p cs.length blk off bs.length) :
    Stored (h.put blk (.bytes (splice off bs old))) b p cs := by
  have hnew := Blocks.read_put_self (c := .bytes (splice off bs old)) (Blocks.lt_of_read hr)
  cases p with
  | null => exact hs
  | lit s => exact hs
  | inBlock x o =>
    obtain ⟨⟨hm, ⟨ds, hd, hdl⟩, hf⟩, es, he, hsl⟩ := hs
    by_cases hx' : x = blk
    · subst hx'
      rw [hr] at hd he
      cases hd
      cases he
      refine ⟨⟨hm, ⟨_, hnew, by rw [length_splice hfit]; exact hdl⟩, hf⟩, _, hnew, ?_⟩
      rcases hap with hap | hap | hap
      · exact absurd rfl hap
      · rw [slice_splice_before hfit hap]
        exact hsl
      · rw [slice_splice_after hfit hap]
        exact hsl
    · rw [← Blocks.read_put_ne (c := .bytes (splice off bs old)) hx'] at hd he
      exact ⟨⟨hm, ⟨ds, hd, hdl⟩, hf⟩, es, he, hsl⟩

end Overwrite

/-- **Writing into a reserved region** stores the text and touches no other stored text. -/
theorem writeBytes_spec {h : Heap} {b : BufferList} {blk off n : Nat} (ok : BufOk h b)
    (hres : Reserved h b blk off n) {bs : List UInt8} (hlen : bs.length ≤ n) :
    ∃ h', h.writeBytes (.inBlock blk off) bs = some h' ∧ BufOk h' b ∧
      Reserved h' b blk off n ∧ Stored h' b (.inBlock blk off) bs ∧ h'.length = h.length ∧
      (∀ x, x ≠ blk → h'.read x = h.read x) ∧
      ∀ p cs, Stored h b p cs → Apart p cs.length blk off n → Stored h' b p cs := by
  obtain ⟨hmem, ⟨old, hr, hroom⟩, hfront⟩ := hres
  have hfit : off + bs.length ≤ old.length := by omega
  have hnew : (h.put blk (.bytes (splice off bs old))).read blk =
      some (.bytes (splice off bs old)) := Blocks.read_put_self (Blocks.lt_of_read hr)
  have hl : (splice off bs old).length = old.length := length_splice hfit
  refine ⟨h.put blk (.bytes (splice off bs old)), by simp [Heap.writeBytes, hr, hfit],
    overwrite_ok ok hr hfit, ⟨hmem, ⟨_, hnew, by omega⟩, hfront⟩,
    ⟨⟨hmem, ⟨_, hnew, by omega⟩, fun o ho => ?_⟩, _, hnew, slice_splice_self hfit⟩,
    Blocks.length_put, fun x hx => Blocks.read_put_ne hx, fun p cs hs hap => ?_⟩
  · have := hfront o ho
    omega
  · apply overwrite_stored hr hfit hs
    cases p with
    | null | lit s => trivial
    | inBlock x o =>
      rcases hap with hap | hap | hap
      · exact .inl hap
      · exact .inr (.inl hap)
      · exact .inr (.inr (by omega))

/-- A read of stored text. -/
theorem readBytes_stored {h : Heap} {b : BufferList} {p : CharPtr} {bs : List UInt8}
    (hs : Stored h b p bs) : h.readBytes p bs.length = some bs := by
  cases p with
  | null =>
    have hs : bs = [] := hs
    simp [Heap.readBytes, hs]
  | lit s =>
    have hs : bs = utf8 s := hs
    simp [Heap.readBytes, hs, utf8Length]
  | inBlock blk off =>
    obtain ⟨⟨_, ⟨cs, hr, hle⟩, _⟩, ds, hr', hsl⟩ := hs
    rw [hr] at hr'
    cases hr'
    simp [Heap.readBytes, hr, hle, hsl]

end Proof

end Couchnode
