import Couchnode.Lib.Run
import Couchnode.Proof.Memory

/-!
# Buffer lists over one heap

Every command has a `BufferList`, and a command that is copied hands the blocks of its list over
to the copy. An `Arena` is the live lists, by the address of their objects, with all the regions
they have handed out; its steps are the constructor, the copy constructor, `getBuffer` and the
destructor, in any order.

`ArenaOk` is what every order of steps keeps: each list is sound for itself, the live blocks are
owned by one list each, and no two regions overlap. Requests to one list are kept apart by its
frontier, and requests to different lists by the blocks.
-/

set_option autoImplicit false

namespace Couchnode

structure Arena where
  heap : Heap
  lists : Blocks BufferList := []
  regions : List Blocks.Region := []

inductive ArenaOp where
  | construct
  | copy (i : Nat)
  | getBuffer (i len : Nat)
  | destroy (i : Nat)

namespace Arena

/-- The region behind a pointer that was handed out. -/
def handedOut (p : CharPtr) (len : Nat) : List Blocks.Region :=
  match p with
  | .inBlock blk off => [{ blk := blk, off := off, len := len }]
  | _ => []

/-- One step on a list that is there. -/
def step : ArenaOp → Arena → Option Arena
  | .construct, a => some { a with lists := a.lists.alloc {} }
  | .copy i, a => do
    let b ← a.lists.read i
    some { a with lists := (a.lists.put i b.copy.2).alloc b.copy.1 }
  | .getBuffer i len, a => do
    let b ← a.lists.read i
    let (p, h, b') ← b.getBuffer len a.heap
    some { heap := h, lists := a.lists.put i b', regions := a.regions ++ handedOut p len }
  | .destroy i, a => do
    let b ← a.lists.read i
    some { a with heap := b.destroy a.heap, lists := a.lists.free i }

end Arena

namespace Proof

/-! ## More about one list -/

section List

variable {h h' : Heap} {b b' : BufferList} {p : CharPtr} {fuel len : Nat}

/-- A list is sound as long as its own blocks are as they were. -/
theorem BufOk.congr (ok : BufOk h b) (hsame : ∀ x ∈ b.bufList, h'.read x = h.read x) :
    BufOk h' b where
  live x hx := by
    rw [hsame x hx]
    exact ok.live x hx
  nodup := ok.nodup
  cur blk off hc := by
    obtain ⟨hm, ho, hu, bs, hr, hl⟩ := ok.cur blk off hc
    exact ⟨hm, ho, hu, bs, by rw [hsame blk hm]; exact hr, hl⟩
  reset := ok.reset

theorem Reserved.congr {blk off n : Nat} (r : Reserved h b blk off n)
    (hsame : ∀ x ∈ b.bufList, h'.read x = h.read x) : Reserved h' b blk off n := by
  obtain ⟨hm, ⟨cs, hr, hl⟩, hf⟩ := r
  exact ⟨hm, ⟨cs, by rw [hsame blk hm]; exact hr, hl⟩, hf⟩

/-- What lies in a region is stored there. -/
theorem Reserved.stored {blk off n : Nat} (r : Reserved h b blk off n) :
    ∃ bs, bs.length = n ∧ Stored h b (.inBlock blk off) bs := by
  obtain ⟨hm, ⟨cs, hr, hl⟩, hf⟩ := r
  have hlen : (slice off n cs).length = n := by
    rw [slice, List.length_take, List.length_drop]
    omega
  refine ⟨slice off n cs, hlen, ?_, cs, hr, by rw [hlen]⟩
  rw [hlen]
  exact ⟨hm, ⟨cs, hr, hl⟩, hf⟩

/-- A step on the list keeps its regions. -/
theorem Kept.reserved (k : Kept h b h' b') {blk off n : Nat} (r : Reserved h b blk off n) :
    Reserved h' b' blk off n := by
  obtain ⟨bs, hlen, hs⟩ := r.stored
  have hs' : Stored h' b' (.inBlock blk off) bs := k.stored _ _ hs
  rw [← hlen]
  exact hs'.1

/-- An old block of the list was its own before. -/
theorem Kept.mine_old (k : Kept h b h' b') {x : Nat} (hx : x ∈ b'.bufList)
    (hold : x < h.length) : x ∈ b.bufList := by
  rcases k.mine x hx with hx | hge
  · exact hx
  · exact absurd hold (Nat.not_lt.mpr hge)

/-- The list has the blocks it had, and those that are new. -/
def Acquires (h : Heap) (b : BufferList) (h' : Heap) (b' : BufferList) : Prop :=
  (∀ x ∈ b.bufList, x ∈ b'.bufList) ∧ ∀ x, h.length ≤ x → x < h'.length → x ∈ b'.bufList

theorem acquires_alloc (c : Cell) (cur : Option (Nat × Nat)) :
    Acquires h b (h.alloc c) { b with bufList := b.bufList ++ [h.length], curBuf := cur } := by
  refine ⟨fun x hx => List.mem_append_left _ hx, fun x hge hlt => ?_⟩
  have hx : x = h.length := by
    rw [Blocks.length_alloc] at hlt
    omega
  rw [hx]
  exact List.mem_append_right _ (List.mem_singleton_self _)

theorem ensureCurBuf_acquires (he : b.ensureCurBuf h = (h', b')) : Acquires h b h' b' := by
  unfold BufferList.ensureCurBuf at he
  cases hc : b.curBuf with
  | some q =>
    rw [hc] at he
    cases he
    exact ⟨fun x hx => hx, fun x hge hlt => absurd hlt (Nat.not_lt.mpr hge)⟩
  | none =>
    rw [hc] at he
    cases he
    exact acquires_alloc _ _

theorem Acquires.then {h₁ : Heap} {b₁ : BufferList} (ha : Acquires h b h₁ b₁)
    (hb : Acquires h₁ b₁ h' b') : Acquires h b h' b' := by
  refine ⟨fun x hx => hb.1 x (ha.1 x hx), fun x hge hlt => ?_⟩
  rcases Nat.lt_or_ge x h₁.length with h₁lt | h₁ge
  · exact hb.1 x (ha.2 x hge h₁lt)
  · exact hb.2 x h₁ge hlt

/-- One call of `getBuffer`, up to a self-call. -/
theorem getBufferFuel_cases (hlen : 0 < len)
    (hg : BufferList.getBufferFuel fuel len h b = some (p, h', b')) :
    Acquires h b h' b' ∧ (∀ f, BufferList.getBufferFuel f len h b = some (p, h', b')) ∨
    ∃ f h₁ b₁, fuel = f + 1 ∧ Acquires h b h₁ b₁ ∧
      BufferList.getBufferFuel f len h₁ b₁ = some (p, h', b') ∧
      ∀ f', BufferList.getBufferFuel (f' + 1) len h b = BufferList.getBufferFuel f' len h₁ b₁ := by
  have hlen0 : ¬ len = 0 := Nat.ne_of_gt hlen
  have hunfold (f : Nat) := BufferList.getBufferFuel.eq_def f len h b
  simp only [if_neg hlen0] at hunfold
  by_cases hbig : b.bytesAllocated ≤ len
  · simp only [if_pos hbig] at hunfold
    rw [hunfold] at hg
    cases hg
    exact .inl ⟨acquires_alloc _ _, hunfold⟩
  simp only [if_neg hbig] at hunfold
  cases he : b.ensureCurBuf h with
  | mk h₁ b₁ =>
    have ha := ensureCurBuf_acquires he
    simp only [he] at hunfold
    by_cases hroom : len < b₁.bytesAvailable
    · simp only [if_pos hroom] at hunfold
      rw [hunfold] at hg
      refine .inl ⟨?_, fun f => by rw [hunfold]; exact hg⟩
      cases hc : b₁.curBuf with
      | none =>
        rw [hc] at hg
        cases hg
      | some q =>
        rw [hc] at hg
        cases hg
        exact ha
    · -- the self-call, from a list without a current block
      simp only [if_neg hroom] at hunfold
      rw [hunfold] at hg
      cases fuel with
      | zero => cases hg
      | succ f =>
        exact .inr ⟨f, h₁, { b₁ with curBuf := none, bytesUsed := 0 }, rfl, ha, hg,
          fun f' => hunfold (f' + 1)⟩

theorem getBufferFuel_acquires (hlen : 0 < len)
    (hg : BufferList.getBufferFuel fuel len h b = some (p, h', b')) : Acquires h b h' b' := by
  induction fuel generalizing h b with
  | zero =>
    rcases getBufferFuel_cases hlen hg with ⟨ha, _⟩ | ⟨f, _, _, hf, _⟩
    · exact ha
    · cases hf
  | succ f ih =>
    rcases getBufferFuel_cases hlen hg with ⟨ha, _⟩ | ⟨_, _, _, hf, ha, hg', _⟩
    · exact ha
    · cases hf
      exact ha.then (ih hg')

/-- A request that is served is served without more self-calls, however many are allowed. -/
theorem getBufferFuel_more (hlen : 0 < len)
    (hg : BufferList.getBufferFuel fuel len h b = some (p, h', b')) (more : Nat) :
    BufferList.getBufferFuel (fuel + more) len h b = some (p, h', b') := by
  induction fuel generalizing h b with
  | zero =>
    rcases getBufferFuel_cases hlen hg with ⟨_, hall⟩ | ⟨f, _, _, hf, _⟩
    · exact hall _
    · cases hf
  | succ f ih =>
    rcases getBufferFuel_cases hlen hg with ⟨_, hall⟩ | ⟨_, _, _, hf, _, hg', hcall⟩
    · exact hall _
    · cases hf
      rw [Nat.add_right_comm, hcall]
      exact ih hg'

end List

/-! ## All of them -/

/-- The list at `i` has the block. -/
def Owns (a : Arena) (i x : Nat) : Prop := ∃ b, a.lists.read i = some b ∧ x ∈ b.bufList

/-- What any order of steps keeps, `lo` being the first block that is not older than the lists:
    the live blocks from there on are the lists', each of one list. A region lies in a block of
    its list for as long as there is one. -/
structure ArenaOk (lo : Nat) (a : Arena) : Prop where
  base : lo ≤ a.heap.length
  ok : ∀ i b, a.lists.read i = some b → BufOk a.heap b
  mine : ∀ i x, Owns a i x → lo ≤ x
  sole : ∀ i j x, Owns a i x → Owns a j x → i = j
  owned : ∀ x c, lo ≤ x → a.heap.read x = some c → ∃ i, Owns a i x
  older : ∀ r ∈ a.regions, r.blk < a.heap.length
  placed : ∀ r ∈ a.regions, ∀ i b, a.lists.read i = some b → r.blk ∈ b.bufList →
    Reserved a.heap b r.blk r.off r.len
  apart : a.regions.Pairwise Blocks.Region.Disjoint

section Steps

variable {lo i len : Nat} {a : Arena} {b : BufferList}

theorem Owns.lt (s : ArenaOk lo a) {x : Nat} (ho : Owns a i x) : x < a.heap.length := by
  obtain ⟨b, hb, hx⟩ := ho
  exact (s.ok i b hb).lt hx

theorem arenaOk_start (h : Heap) : ArenaOk h.length { heap := h } where
  base := Nat.le_refl _
  ok i b hb := by cases hb
  mine i x ho := by
    obtain ⟨b, hb, _⟩ := ho
    cases hb
  sole i j x ho _ := by
    obtain ⟨b, hb, _⟩ := ho
    cases hb
  owned x c hx hr := absurd (Blocks.lt_of_read hr) (Nat.not_lt.mpr hx)
  older r hr := by cases hr
  placed r hr := by cases hr
  apart := .nil

theorem construct_owns {j x : Nat} (ho : Owns { a with lists := a.lists.alloc {} } j x) :
    Owns a j x := by
  obtain ⟨c, hc, hx⟩ := ho
  rcases Blocks.read_alloc_some hc with ⟨_, rfl⟩ | hc
  · cases hx
  · exact ⟨c, hc, hx⟩

/-- One more list without blocks. -/
theorem arenaOk_construct (s : ArenaOk lo a) :
    ArenaOk lo { a with lists := a.lists.alloc {} } where
  base := s.base
  ok j c hc := by
    rcases Blocks.read_alloc_some hc with ⟨_, rfl⟩ | hc
    · exact .empty _
    · exact s.ok j c hc
  mine j x ho := s.mine j x (construct_owns ho)
  sole j l x ho ho' := s.sole j l x (construct_owns ho) (construct_owns ho')
  owned x c hx hr := by
    obtain ⟨j, d, hd, hm⟩ := s.owned x c hx hr
    exact ⟨j, d, Blocks.read_alloc hd, hm⟩
  older := s.older
  placed r hr j c hc hm := by
    rcases Blocks.read_alloc_some hc with ⟨_, rfl⟩ | hc
    · cases hm
    · exact s.placed r hr j c hc hm
  apart := s.apart

/-! ### Copies -/

theorem copy_old_ok (h : Heap) (b : BufferList) : BufOk h b.copy.2 where
  live x hx := by cases hx
  nodup := .nil
  cur x o hc := by cases hc
  reset _ := rfl

/-- After a copy: the list at the new place, an empty one at the old, the others as they were. -/
theorem copy_read {j : Nat} {c : BufferList}
    (hc : ((a.lists.put i b.copy.2).alloc b.copy.1).read j = some c) :
    (j = a.lists.length ∧ c = b) ∨ c = b.copy.2 ∨ (j ≠ i ∧ a.lists.read j = some c) := by
  rcases Blocks.read_alloc_some hc with ⟨hj, rfl⟩ | hc
  · rw [Blocks.length_put] at hj
    exact .inl ⟨hj, rfl⟩
  · rcases Blocks.read_put_some hc with ⟨_, rfl⟩ | hc
    · exact .inr (.inl rfl)
    · exact .inr (.inr hc)

theorem copy_owns (hb : a.lists.read i = some b) {j x : Nat}
    (ho : Owns { a with lists := (a.lists.put i b.copy.2).alloc b.copy.1 } j x) :
    (j = a.lists.length ∧ Owns a i x) ∨ (j ≠ i ∧ Owns a j x) := by
  obtain ⟨c, hc, hx⟩ := ho
  rcases copy_read hc with ⟨hj, rfl⟩ | rfl | ⟨hj, hc⟩
  · exact .inl ⟨hj, _, hb, hx⟩
  · cases hx
  · exact .inr ⟨hj, c, hc, hx⟩

/-- A copy has the blocks, and the old object none. -/
theorem arenaOk_copy (s : ArenaOk lo a) (hb : a.lists.read i = some b) :
    ArenaOk lo { a with lists := (a.lists.put i b.copy.2).alloc b.copy.1 } where
  base := s.base
  ok j c hc := by
    rcases copy_read hc with ⟨_, rfl⟩ | rfl | ⟨_, hc⟩
    · exact s.ok i _ hb
    · exact copy_old_ok _ _
    · exact s.ok j c hc
  mine j x ho := by
    rcases copy_owns hb ho with ⟨_, ho⟩ | ⟨_, ho⟩
    · exact s.mine i x ho
    · exact s.mine j x ho
  sole j l x ho ho' := by
    rcases copy_owns hb ho with ⟨hj, ho⟩ | ⟨hj, ho⟩
    · rcases copy_owns hb ho' with ⟨hl, _⟩ | ⟨hl, ho'⟩
      · rw [hj, hl]
      · exact absurd (s.sole i l x ho ho').symm hl
    · rcases copy_owns hb ho' with ⟨_, ho'⟩ | ⟨_, ho'⟩
      · exact absurd (s.sole j i x ho ho') hj
      · exact s.sole j l x ho ho'
  owned x c hx hr := by
    obtain ⟨j, d, hd, hm⟩ := s.owned x c hx hr
    by_cases hj : j = i
    · -- the block is the copy's now
      rw [hj, hb] at hd
      cases hd
      refine ⟨(a.lists.put i b.copy.2).length, b, ?_, hm⟩
      exact Blocks.read_alloc_new
    · refine ⟨j, d, Blocks.read_alloc ?_, hm⟩
      rw [Blocks.read_put_ne hj]
      exact hd
  older := s.older
  placed r hr j c hc hm := by
    rcases copy_read hc with ⟨_, rfl⟩ | rfl | ⟨_, hc⟩
    · exact s.placed r hr i _ hb hm
    · cases hm
    · exact s.placed r hr j c hc hm
  apart := s.apart

/-! ### Requests -/

section Request

variable {h' : Heap} {b' : BufferList}

/-- A step on one list leaves the blocks of the others to them, as they were. -/
theorem others_kept (s : ArenaOk lo a) (hb : a.lists.read i = some b) (k : Kept a.heap b h' b')
    {j x : Nat} (hj : j ≠ i) (ho : Owns a j x) :
    x ∉ b'.bufList ∧ h'.read x = a.heap.read x := by
  have hm : x ∉ b'.bufList := by
    intro hx
    exact hj (s.sole j i x ho ⟨b, hb, k.mine_old hx (ho.lt s)⟩)
  exact ⟨hm, k.old x (ho.lt s) hm⟩

/-- So the other lists are as sound as they were, and hold what they held. -/
theorem others_same (s : ArenaOk lo a) (hb : a.lists.read i = some b) (k : Kept a.heap b h' b')
    {j : Nat} {c : BufferList} (hj : j ≠ i) (hc : a.lists.read j = some c) :
    ∀ x ∈ c.bufList, h'.read x = a.heap.read x := by
  intro x hx
  exact (others_kept s hb k hj ⟨c, hc, hx⟩).2

/-- After a request a block is the list's, or another's that had it before. -/
theorem request_owns {regions : List Blocks.Region} {j x : Nat}
    (ho : Owns { heap := h', lists := a.lists.put i b', regions := regions } j x) :
    (j = i ∧ x ∈ b'.bufList) ∨ (j ≠ i ∧ Owns a j x) := by
  obtain ⟨c, hc, hx⟩ := ho
  rcases Blocks.read_put_some hc with ⟨hj, rfl⟩ | ⟨hj, hc⟩
  · exact .inl ⟨hj, hx⟩
  · exact .inr ⟨hj, c, hc, hx⟩

/-- The live blocks afterwards are the list's, or the others' as before. -/
theorem owned_request (s : ArenaOk lo a) (hb : a.lists.read i = some b)
    (k : Kept a.heap b h' b') (hacq : Acquires a.heap b h' b') {x : Nat} {c : Cell} (hx : lo ≤ x)
    (hr : h'.read x = some c) : x ∈ b'.bufList ∨ ∃ j, j ≠ i ∧ Owns a j x := by
  by_cases hm : x ∈ b'.bufList
  · exact .inl hm
  · -- a block that is not of this list was there before
    have hold : x < a.heap.length := by
      by_contra hge
      exact hm (hacq.2 x (Nat.not_lt.mp hge) (Blocks.lt_of_read hr))
    rw [k.old x hold hm] at hr
    obtain ⟨j, d, hd, hx'⟩ := s.owned x c hx hr
    refine .inr ⟨j, ?_, d, hd, hx'⟩
    rintro rfl
    rw [hb] at hd
    cases hd
    exact hm (k.more x hx')

/-- A region that begins behind everything stored is apart from every region before it. -/
theorem request_apart (s : ArenaOk lo a) (hb : a.lists.read i = some b)
    (k : Kept a.heap b h' b') {blk off : Nat} (hblk : blk ∈ b'.bufList)
    (hbehind : ∀ p bs, Stored a.heap b p bs → Behind p bs.length blk off)
    {r : Blocks.Region} (hr : r ∈ a.regions) :
    r.Disjoint { blk := blk, off := off, len := len } := by
  by_cases he : r.blk = blk
  · have hm : r.blk ∈ b.bufList := k.mine_old (he ▸ hblk) (s.older r hr)
    obtain ⟨bs, hbs, hst⟩ := (s.placed r hr i b hb hm).stored
    rcases hbehind _ _ hst with hne | hle
    · exact absurd he hne
    · rw [hbs] at hle
      exact .inr (.inl hle)
  · exact .inl he

/-- **A request to one list**: its region is in none of the others' blocks, and behind all that
    was handed out of its own. -/
theorem arenaOk_request {blk off : Nat} (s : ArenaOk lo a) (hb : a.lists.read i = some b)
    (ok' : BufOk h' b') (k : Kept a.heap b h' b') (hacq : Acquires a.heap b h' b')
    (hres : Reserved h' b' blk off len)
    (hbehind : ∀ p bs, Stored a.heap b p bs → Behind p bs.length blk off) :
    ArenaOk lo
      { heap := h', lists := a.lists.put i b'
        regions := a.regions ++ [{ blk := blk, off := off, len := len }] } where
  base := Nat.le_trans s.base k.length
  ok j c hc := by
    rcases Blocks.read_put_some hc with ⟨_, rfl⟩ | ⟨hj, hc⟩
    · exact ok'
    · exact (s.ok j c hc).congr (others_same s hb k hj hc)
  mine j x ho := by
    rcases request_owns ho with ⟨_, hx⟩ | ⟨_, ho⟩
    · rcases k.mine x hx with hx | hge
      · exact s.mine i x ⟨b, hb, hx⟩
      · exact Nat.le_trans s.base hge
    · exact s.mine j x ho
  sole j l x ho ho' := by
    rcases request_owns ho with ⟨hj, hx⟩ | ⟨hj, ho⟩
    · rcases request_owns ho' with ⟨hl, _⟩ | ⟨hl, ho'⟩
      · rw [hj, hl]
      · exact absurd hx (others_kept s hb k hl ho').1
    · rcases request_owns ho' with ⟨_, hx⟩ | ⟨_, ho'⟩
      · exact absurd hx (others_kept s hb k hj ho).1
      · exact s.sole j l x ho ho'
  owned x c hx hr := by
    rcases owned_request s hb k hacq hx hr with hm | ⟨j, hj, d, hd, hm⟩
    · exact ⟨i, b', Blocks.read_put_self (Blocks.lt_of_read hb), hm⟩
    · refine ⟨j, d, ?_, hm⟩
      show (a.lists.put i b').read j = some d
      rw [Blocks.read_put_ne hj]
      exact hd
  older r hr := by
    rcases List.mem_append.mp hr with hr | hr
    · exact Nat.lt_of_lt_of_le (s.older r hr) k.length
    · rw [List.mem_singleton.mp hr]
      exact ok'.lt hres.1
  placed r hr j c hc hm := by
    rcases List.mem_append.mp hr with hold | hnew
    · rcases Blocks.read_put_some hc with ⟨_, rfl⟩ | ⟨hj, hc⟩
      · exact k.reserved (s.placed r hold i b hb (k.mine_old hm (s.older r hold)))
      · exact (s.placed r hold j c hc hm).congr (others_same s hb k hj hc)
    · rw [List.mem_singleton.mp hnew] at hm ⊢
      rcases Blocks.read_put_some hc with ⟨_, rfl⟩ | ⟨hj, hc⟩
      · exact hres
      · exact absurd hres.1 (others_kept s hb k hj ⟨c, hc, hm⟩).1
  apart := by
    rw [List.pairwise_append]
    refine ⟨s.apart, List.pairwise_singleton _ _, fun r hr r' hr' => ?_⟩
    rw [List.mem_singleton.mp hr']
    exact request_apart s hb k hres.1 hbehind hr

/-- `getBuffer` returns such a region. -/
theorem arenaOk_getBuffer (s : ArenaOk lo a) (hb : a.lists.read i = some b) (hlen : 0 < len) :
    ∃ blk off h' b', b.getBuffer len a.heap = some (.inBlock blk off, h', b') ∧
      blk ∈ b'.bufList ∧ (∃ cs, h'.read blk = some (.bytes cs) ∧ off + len ≤ cs.length) ∧
      ArenaOk lo
        { heap := h', lists := a.lists.put i b'
          regions := a.regions ++ [{ blk := blk, off := off, len := len }] } := by
  obtain ⟨blk, off, h', b', he, ok', k, hres, hbehind⟩ := getBuffer_spec (s.ok i b hb) hlen
  have hacq := getBufferFuel_acquires hlen he
  exact ⟨blk, off, h', b', he, hres.1, hres.2.1,
    arenaOk_request s hb ok' k hacq hres hbehind⟩

end Request

/-- Nothing is changed by a list that is put where it was. -/
theorem arenaOk_put_self (s : ArenaOk lo a) (hb : a.lists.read i = some b) :
    ArenaOk lo { a with lists := a.lists.put i b, regions := a.regions ++ [] } := by
  rw [Blocks.put_self hb, List.append_nil]
  exact s

/-! ### Destructors -/

theorem destroy_length (h : Heap) : (b.destroy h).length = h.length :=
  Blocks.length_freeAll _

/-- What a list still has it had before, and it is not the list that is gone. -/
theorem destroy_owns {j x : Nat}
    (ho : Owns { a with heap := b.destroy a.heap, lists := a.lists.free i } j x) :
    j ≠ i ∧ Owns a j x := by
  obtain ⟨c, hc, hx⟩ := ho
  obtain ⟨hj, hc⟩ := Blocks.read_free_some hc
  exact ⟨hj, c, hc, hx⟩

theorem destroy_same (s : ArenaOk lo a) (hb : a.lists.read i = some b) {j : Nat} {c : BufferList}
    (hj : j ≠ i) (hc : a.lists.read j = some c) :
    ∀ x ∈ c.bufList, (b.destroy a.heap).read x = a.heap.read x := by
  intro x hx
  apply Blocks.read_freeAll
  intro hm
  exact hj (s.sole j i x ⟨c, hc, hx⟩ ⟨b, hb, hm⟩)

/-- The blocks of a list that is gone are gone, and no others. -/
theorem arenaOk_destroy (s : ArenaOk lo a) (hb : a.lists.read i = some b) :
    ArenaOk lo { a with heap := b.destroy a.heap, lists := a.lists.free i } where
  base := by
    rw [destroy_length]
    exact s.base
  ok j c hc := by
    obtain ⟨hj, hc⟩ := Blocks.read_free_some hc
    exact (s.ok j c hc).congr (destroy_same s hb hj hc)
  mine j x ho := s.mine j x (destroy_owns ho).2
  sole j l x ho ho' := s.sole j l x (destroy_owns ho).2 (destroy_owns ho').2
  owned x c hx hr := by
    have hm : x ∉ b.bufList := by
      intro hm
      have hgone : (b.destroy a.heap).read x = none := Blocks.read_freeAll_mem hm
      rw [hgone] at hr
      cases hr
    have hr' : a.heap.read x = some c := by
      rw [← Blocks.read_freeAll hm]
      exact hr
    obtain ⟨j, d, hd, hx'⟩ := s.owned x c hx hr'
    have hj : j ≠ i := by
      rintro rfl
      rw [hb] at hd
      cases hd
      exact hm hx'
    refine ⟨j, d, ?_, hx'⟩
    show (a.lists.free i).read j = some d
    rw [Blocks.read_free_ne hj]
    exact hd
  older r hr := by
    rw [destroy_length]
    exact s.older r hr
  placed r hr j c hc hm := by
    obtain ⟨hj, hc⟩ := Blocks.read_free_some hc
    exact (s.placed r hr j c hc hm).congr (destroy_same s hb hj hc)
  apart := s.apart

/-! ### Any step, and any run -/

theorem ArenaOk.step {op : ArenaOp} {a' : Arena} (s : ArenaOk lo a)
    (h : Arena.step op a = some a') : ArenaOk lo a' := by
  cases op with
  | construct =>
    cases h
    exact arenaOk_construct s
  | copy i =>
    obtain ⟨b, hb, h⟩ := Option.bind_eq_some_iff.mp h
    cases h
    exact arenaOk_copy s hb
  | getBuffer i len =>
    obtain ⟨b, hb, h⟩ := Option.bind_eq_some_iff.mp h
    obtain ⟨⟨p, h', b'⟩, hg, h⟩ := Option.bind_eq_some_iff.mp h
    cases h
    rcases Nat.eq_zero_or_pos len with rfl | hlen
    · -- an empty request is answered by null
      cases hg
      exact arenaOk_put_self s hb
    · obtain ⟨blk, off, h'', b'', he, _, _, hok⟩ := arenaOk_getBuffer s hb hlen
      rw [hg] at he
      cases he
      exact hok
  | destroy i =>
    obtain ⟨b, hb, h⟩ := Option.bind_eq_some_iff.mp h
    cases h
    exact arenaOk_destroy s hb

/-- **In every order of steps**: a step keeps it, so a run does. -/
theorem arenaOk_run {h₀ : Heap} {ops : List ArenaOp}
    (h : Run.exec Arena.step { heap := h₀ } ops = some a) : ArenaOk h₀.length a :=
  Run.exec_inv_all (fun _ _ _ s hstep => s.step hstep) (arenaOk_start h₀) h

/-- What the users of the lists rely on. -/
structure HandsOutApart (lo : Nat) (a : Arena) : Prop where
  /-- A request is served from a block of the list, with one self-call at most. -/
  served : ∀ i b len, a.lists.read i = some b → 0 < len → ∃ blk off h' b',
    (∀ more, BufferList.getBufferFuel (1 + more) len a.heap b = some (.inBlock blk off, h', b')) ∧
    blk ∈ b'.bufList ∧ ∃ cs, h'.read blk = some (.bytes cs) ∧ off + len ≤ cs.length
  /-- No two regions overlap, and each is inside its block. -/
  apart : a.regions.Pairwise Blocks.Region.Disjoint
  inside : ∀ r ∈ a.regions, ∀ i, Owns a i r.blk →
    ∃ cs, a.heap.read r.blk = some (.bytes cs) ∧ r.off + r.len ≤ cs.length
  /-- Every block is in one list, once. -/
  owner : ∀ x c, lo ≤ x → a.heap.read x = some c → ∃ i, Owns a i x ∧ ∀ j, Owns a j x → j = i
  once : ∀ i b, a.lists.read i = some b → b.bufList.Nodup

theorem ArenaOk.handsOutApart (s : ArenaOk lo a) : HandsOutApart lo a where
  served i b len hb hlen := by
    obtain ⟨blk, off, h', b', he, hm, hroom, _⟩ := arenaOk_getBuffer s hb hlen
    exact ⟨blk, off, h', b', getBufferFuel_more hlen he, hm, hroom⟩
  apart := s.apart
  inside r hr i ho := by
    obtain ⟨b, hb, hm⟩ := ho
    exact (s.placed r hr i b hb hm).2.1
  owner x c hx hr := by
    obtain ⟨i, ho⟩ := s.owned x c hx hr
    exact ⟨i, ho, fun j ho' => s.sole j i x ho' ho⟩
  once i b hb := (s.ok i b hb).nodup

end Steps

end Proof

end Couchnode
