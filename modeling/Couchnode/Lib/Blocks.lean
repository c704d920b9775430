import Mathlib.Data.List.Basic

/-!
# A heap of blocks

Memory as a list of blocks, each live or freed, named by their position: `alloc` appends a
block, so a fresh name is one the heap did not have, and `free` never lets a name be used
again. A block's content is a `γ`. The second half is about contents that are lists:
`slice` is the region of `n` items at `off`, `splice` writes a list there, and a write
leaves every disjoint region as it was.
-/

set_option autoImplicit false

/-- Blocks by name; a freed block is `none`. -/
abbrev Blocks (γ : Type) := List (Option γ)

namespace Blocks

variable {γ : Type} {h : Blocks γ} {b b' : Nat} {c c' : γ}

/-- The content of a live block. -/
def read (h : Blocks γ) (b : Nat) : Option γ := h[b]?.join

/-- A heap with one more block; its name is the old length. -/
def alloc (h : Blocks γ) (c : γ) : Blocks γ := h ++ [some c]

/-- Replace the content of a block. -/
def put (h : Blocks γ) (b : Nat) (c : γ) : Blocks γ := h.set b (some c)

def free (h : Blocks γ) (b : Nat) : Blocks γ := h.set b none

theorem lt_of_read (hr : h.read b = some c) : b < h.length := by
  by_contra hlt
  rw [read, List.getElem?_eq_none (by omega)] at hr
  exact absurd hr (by simp)

@[simp] theorem length_alloc : (h.alloc c).length = h.length + 1 := by simp [alloc]

@[simp] theorem length_put : (h.put b c).length = h.length := by simp [put]

@[simp] theorem read_alloc_new : (h.alloc c).read h.length = some c := by
  simp [read, alloc]

theorem read_alloc_lt (hlt : b < h.length) : (h.alloc c).read b = h.read b := by
  simp [read, alloc, List.getElem?_append_left hlt]

/-- Allocation keeps every live block. -/
theorem read_alloc (hr : h.read b = some c') : (h.alloc c).read b = some c' := by
  rw [read_alloc_lt (lt_of_read hr)]
  exact hr

theorem read_put_self (hlt : b < h.length) : (h.put b c).read b = some c := by
  simp [read, put, hlt]

theorem read_put_ne (hne : b' ≠ b) : (h.put b c).read b' = h.read b' := by
  simp [read, put, List.getElem?_set_ne (Ne.symm hne)]

@[simp] theorem length_free : (h.free b).length = h.length := by simp [free]

theorem read_free_ne (hne : b' ≠ b) : (h.free b).read b' = h.read b' := by
  simp [read, free, List.getElem?_set_ne (Ne.symm hne)]

/-- What can be read after an allocation: the new block, and what was there. -/
theorem read_alloc_some (hr : (h.alloc c).read b = some c') :
    (b = h.length ∧ c' = c) ∨ h.read b = some c' := by
  rcases Nat.lt_trichotomy b h.length with hlt | rfl | hgt
  · rw [read_alloc_lt hlt] at hr
    exact .inr hr
  · rw [read_alloc_new] at hr
    exact .inl ⟨rfl, (Option.some.inj hr).symm⟩
  · have hlt := lt_of_read hr
    rw [length_alloc] at hlt
    omega

/-- After a write: what was written, and the other blocks. -/
theorem read_put_some (hr : (h.put b c).read b' = some c') :
    (b' = b ∧ c' = c) ∨ (b' ≠ b ∧ h.read b' = some c') := by
  by_cases hb : b' = b
  · subst hb
    have hlt := lt_of_read hr
    rw [length_put] at hlt
    rw [read_put_self hlt] at hr
    exact .inl ⟨rfl, (Option.some.inj hr).symm⟩
  · rw [read_put_ne hb] at hr
    exact .inr ⟨hb, hr⟩

/-- Writing what is there. -/
theorem put_self (hr : h.read b = some c) : h.put b c = h := by
  have hlt := lt_of_read hr
  have hget : h[b] = some c := by
    rw [read, List.getElem?_eq_getElem hlt] at hr
    exact hr
  rw [put, ← hget, List.set_getElem_self]

theorem read_free_self : (h.free b).read b = none := by
  rw [read, free, List.getElem?_set_self']
  cases h[b]? <;> rfl

theorem read_free_some (hr : (h.free b).read b' = some c') : b' ≠ b ∧ h.read b' = some c' := by
  by_cases hb : b' = b
  · rw [hb, read_free_self] at hr
    cases hr
  · rw [read_free_ne hb] at hr
    exact ⟨hb, hr⟩

/-- Give up a list of blocks. -/
def freeAll (h : Blocks γ) (bs : List Nat) : Blocks γ := bs.foldl free h

@[simp] theorem length_freeAll (bs : List Nat) : (h.freeAll bs).length = h.length := by
  induction bs generalizing h with
  | nil => rfl
  | cons b bs ih =>
    show ((h.free b).freeAll bs).length = h.length
    rw [ih, length_free]

/-- A block not in the list is as it was. -/
theorem read_freeAll {bs : List Nat} (hb : b ∉ bs) : (h.freeAll bs).read b = h.read b := by
  induction bs generalizing h with
  | nil => rfl
  | cons b' bs ih =>
    have hne : b ≠ b' := fun e => hb (e ▸ List.mem_cons_self ..)
    show ((h.free b').freeAll bs).read b = h.read b
    rw [ih fun hm => hb (List.mem_cons_of_mem _ hm), read_free_ne hne]

/-- A block in the list is gone. -/
theorem read_freeAll_mem {bs : List Nat} (hb : b ∈ bs) : (h.freeAll bs).read b = none := by
  induction bs generalizing h with
  | nil => cases hb
  | cons b' bs ih =>
    by_cases hm : b ∈ bs
    · exact ih hm
    · have he : b = b' := by
        rcases List.mem_cons.mp hb with he | hmem
        · exact he
        · exact absurd hmem hm
      show ((h.free b').freeAll bs).read b = none
      rw [read_freeAll hm, he, read_free_self]

/-! ### Live blocks -/

/-- The block was allocated and has not been freed. -/
def Live (h : Blocks γ) (b : Nat) : Prop := (h.read b).isSome = true

theorem Live.lt (hl : h.Live b) : b < h.length := by
  obtain ⟨c, hr⟩ := Option.isSome_iff_exists.mp hl
  exact lt_of_read hr

theorem live_of_read (hr : h.read b = some c) : h.Live b := Option.isSome_iff_exists.mpr ⟨c, hr⟩

/-- What is live depends on what can be read. -/
theorem live_congr {h' : Blocks γ} (hr : h'.read b = h.read b) : h'.Live b ↔ h.Live b := by
  unfold Live
  rw [hr]

theorem live_alloc : (h.alloc c).Live b ↔ h.Live b ∨ b = h.length := by
  constructor
  · intro hl
    obtain ⟨c', hr⟩ := Option.isSome_iff_exists.mp hl
    rcases read_alloc_some hr with ⟨rfl, _⟩ | hr
    · exact .inr rfl
    · exact .inl (live_of_read hr)
  · rintro (hl | rfl)
    · obtain ⟨c', hr⟩ := Option.isSome_iff_exists.mp hl
      exact live_of_read (read_alloc hr)
    · exact live_of_read read_alloc_new

/-- A write to a live block makes no other live. -/
theorem live_put (hb : h.Live b) : (h.put b c).Live b' ↔ h.Live b' := by
  by_cases he : b' = b
  · subst he
    exact iff_of_true (live_of_read (read_put_self hb.lt)) hb
  · exact live_congr (read_put_ne he)

theorem live_freeAll {bs : List Nat} : (h.freeAll bs).Live b ↔ h.Live b ∧ b ∉ bs := by
  by_cases hb : b ∈ bs
  · have hgone : ¬ (h.freeAll bs).Live b := by
      unfold Live
      rw [read_freeAll_mem hb]
      exact Bool.false_ne_true
    exact iff_of_false hgone fun hl => hl.2 hb
  · rw [live_congr (read_freeAll hb)]
    exact ⟨fun hl => ⟨hl, hb⟩, And.left⟩

theorem live_free : (h.free b).Live b' ↔ h.Live b' ∧ b' ≠ b := by
  have hfree : h.free b = h.freeAll [b] := rfl
  rw [hfree, live_freeAll, List.mem_singleton]

/-- Some items of a block. -/
structure Region where
  blk : Nat
  off : Nat
  len : Nat

/-- They have no item in common. -/
def Region.Disjoint (r r' : Region) : Prop :=
  r.blk ≠ r'.blk ∨ r.off + r.len ≤ r'.off ∨ r'.off + r'.len ≤ r.off

end Blocks

/-! ## Regions of a block -/

section Regions

variable {α : Type} {l bs : List α} {off off' n : Nat}

/-- The `n` items at `off`. -/
def slice (off n : Nat) (l : List α) : List α := (l.drop off).take n

/-- `l` with `bs` written at `off`. -/
def splice (off : Nat) (bs l : List α) : List α :=
  l.take off ++ bs ++ l.drop (off + bs.length)

theorem slice_add (off m n : Nat) (l : List α) :
    slice off (m + n) l = slice off m l ++ slice (off + m) n l := by
  simp only [slice, List.take_add, List.drop_drop]

theorem length_splice (h : off + bs.length ≤ l.length) :
    (splice off bs l).length = l.length := by
  simp only [splice, List.length_append, List.length_take, List.length_drop]
  omega

theorem slice_splice_self (h : off + bs.length ≤ l.length) :
    slice off bs.length (splice off bs l) = bs := by
  have hlen : (l.take off).length = off := by simp; omega
  simp only [slice, splice, List.append_assoc]
  rw [List.drop_append_of_le_length (by omega), List.drop_eq_nil_of_le (by omega)]
  simp

/-- A write leaves a region that ends before it alone. -/
theorem slice_splice_before (h : off + bs.length ≤ l.length) (hd : off' + n ≤ off) :
    slice off' n (splice off bs l) = slice off' n l := by
  have hlen : (l.take off).length = off := by simp; omega
  simp only [slice, splice, List.append_assoc]
  rw [List.drop_append_of_le_length (by omega), List.take_append_of_le_length (by simp; omega),
    List.drop_take, List.take_take]
  congr 1
  omega

/-- ...and one that starts after it. -/
theorem slice_splice_after (h : off + bs.length ≤ l.length) (hd : off + bs.length ≤ off') :
    slice off' n (splice off bs l) = slice off' n l := by
  have hlen : (l.take off).length = off := by simp; omega
  simp only [slice, splice]
  rw [List.drop_append, List.drop_eq_nil_of_le (by simp; omega), List.nil_append,
    List.drop_drop]
  congr 2
  simp only [List.length_append, hlen]
  omega

end Regions
