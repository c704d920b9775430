import Mathlib.Data.List.Basic
import Mathlib.Data.List.Nodup
import Mathlib.Data.List.Infix

/-!
# First come, first served

The book of a service point: who joined, who was served, and who left without that, in the
order it happened. A customer who has been served or has left is `Gone`. `Accounted` ties a
book to a line of people waiting: nobody joins twice, and the line is everybody who joined and
is not gone, in the order they joined.

`InOrder` is the promise the name makes: whoever is served finds everybody who joined before
already gone. Serving the head of the line keeps it (`InOrder.serve_head`). Serving somebody on
arrival keeps it only if the line is empty, and nothing that happens later repairs it
(`inOrder_pass`, `InOrder.of_prefix`).
-/

set_option autoImplicit false

namespace Fifo

variable {ι : Type}

inductive Entry (ι : Type) where
  | joined (i : ι)
  | served (i : ι)
  | dropped (i : ι)
  deriving DecidableEq

abbrev Book (ι : Type) := List (Entry ι)

def Entry.joins : Entry ι → Option ι
  | .joined i => some i
  | _ => none

/-- Who an entry says is gone. -/
def Entry.leaves : Entry ι → Option ι
  | .joined _ => none
  | .served i => some i
  | .dropped i => some i

namespace Book

def joins (es : Book ι) : List ι := es.filterMap Entry.joins

def leaves (es : Book ι) : List ι := es.filterMap Entry.leaves

def Gone (i : ι) (es : Book ι) : Prop := i ∈ es.leaves

/-- `i` joined before `j`. -/
def Before (i j : ι) (es : Book ι) : Prop := [i, j].Sublist es.joins

/-- Whoever is served finds everybody who joined before gone. -/
def InOrder (es : Book ι) : Prop :=
  ∀ pre j post, es = pre ++ .served j :: post → ∀ i, Before i j es → Gone i pre

@[simp] theorem joins_append (es es' : Book ι) :
    joins (es ++ es') = es.joins ++ joins es' := List.filterMap_append

@[simp] theorem leaves_append (es es' : Book ι) :
    leaves (es ++ es') = es.leaves ++ leaves es' := List.filterMap_append

@[simp] theorem joins_joined (i : ι) : joins [Entry.joined i] = [i] := rfl
@[simp] theorem leaves_joined (i : ι) : leaves [Entry.joined i] = [] := rfl

theorem mem_leaves_append {i : ι} {es es' : Book ι} :
    Gone i (es ++ es') ↔ Gone i es ∨ i ∈ leaves es' := by
  unfold Gone
  rw [leaves_append, List.mem_append]

/-! ## The line -/

variable [DecidableEq ι]

/-- The line of a book: nobody joins twice, everybody gone had joined, and the line is the rest
    in the order they joined. -/
structure Accounted (es : Book ι) (line : List ι) : Prop where
  once : es.joins.Nodup
  known : ∀ i, Gone i es → i ∈ es.joins
  line : line = es.joins.filter fun i => i ∉ es.leaves

namespace Accounted

variable {es : Book ι} {line : List ι} {e : Entry ι} {i j : ι}

theorem empty : Accounted ([] : Book ι) [] where
  once := List.nodup_nil
  known _ h := h
  line := rfl

/-- In the line is who joined and is not gone. -/
theorem mem_line (h : Accounted es line) : i ∈ line ↔ i ∈ es.joins ∧ ¬ Gone i es := by
  rw [h.line, List.mem_filter, decide_eq_true_eq]
  rfl

theorem nodup (h : Accounted es line) : line.Nodup := by
  rw [h.line]
  exact h.once.filter _

theorem join (h : Accounted es line) (hi : i ∉ es.joins) :
    Accounted (es ++ [.joined i]) (line ++ [i]) where
  once := by
    rw [joins_append, joins_joined, List.nodup_append]
    refine ⟨h.once, List.nodup_singleton i, ?_⟩
    intro a ha b hb he
    rw [List.mem_singleton] at hb
    exact hi (hb ▸ he ▸ ha)
  known := by
    intro k hk
    rw [mem_leaves_append, leaves_joined] at hk
    rcases hk with hk | hk
    · rw [joins_append]
      exact List.mem_append_left _ (h.known k hk)
    · cases hk
  line := by
    have hnew : i ∉ es.leaves := fun hm => hi (h.known i hm)
    rw [joins_append, joins_joined, leaves_append, leaves_joined, List.append_nil,
      List.filter_append, ← h.line, List.filter_cons_of_pos (by simpa using hnew), List.filter_nil]

/-- Somebody who joined leaves, one way or the other, from wherever they stand. -/
theorem leave (h : Accounted es line) (he : e.leaves = some i) (hj : e.joins = none)
    (hi : i ∈ es.joins) : Accounted (es ++ [e]) (line.filter fun k => k ≠ i) := by
  have hjoins : joins (es ++ [e]) = es.joins := by simp [joins, hj]
  have hleaves : leaves (es ++ [e]) = es.leaves ++ [i] := by simp [leaves, he]
  refine ⟨?_, ?_, ?_⟩
  · rw [hjoins]
    exact h.once
  · intro k hk
    unfold Gone at hk
    rw [hleaves, List.mem_append, List.mem_singleton] at hk
    rw [hjoins]
    rcases hk with hk | rfl
    · exact h.known k hk
    · exact hi
  · rw [hjoins, hleaves, h.line, List.filter_filter]
    refine List.filter_congr fun k _ => ?_
    simp [and_comm]

theorem leave_head (h : Accounted es (i :: line)) (he : e.leaves = some i) (hj : e.joins = none) :
    Accounted (es ++ [e]) line := by
  have hnot : i ∉ line := (List.nodup_cons.mp h.nodup).1
  have hrest := h.leave he hj (h.mem_line.mp (List.mem_cons_self ..)).1
  rw [List.filter_cons_of_neg (by simp), List.filter_eq_self.mpr] at hrest
  · exact hrest
  · intro k hk
    rw [decide_eq_true_eq]
    rintro rfl
    exact hnot hk

/-- Another entry about somebody who is gone. -/
theorem leave_again (h : Accounted es line) (he : e.leaves = some i) (hj : e.joins = none)
    (hi : Gone i es) : Accounted (es ++ [e]) line := by
  have hrest := h.leave he hj (h.known i hi)
  rw [List.filter_eq_self.mpr] at hrest
  · exact hrest
  · intro k hk
    rw [decide_eq_true_eq]
    rintro rfl
    exact (h.mem_line.mp hk).2 hi

/-- Somebody joins and is served on the spot. -/
theorem pass (h : Accounted es line) (hi : i ∉ es.joins) :
    Accounted (es ++ [.joined i] ++ [.served i]) line := by
  have hnot : i ∉ line := fun hm => hi (h.mem_line.mp hm).1
  have hrest := (h.join hi).leave (e := .served i) rfl rfl (by simp)
  rw [List.filter_append, List.filter_cons_of_neg (by simp), List.filter_nil, List.append_nil,
    List.filter_eq_self.mpr] at hrest
  · exact hrest
  · intro k hk
    rw [decide_eq_true_eq]
    rintro rfl
    exact hnot hk

end Accounted

/-! ## The order -/

variable {es es' : Book ι} {line : List ι} {e : Entry ι} {i j : ι}

omit [DecidableEq ι] in
theorem InOrder.empty : InOrder ([] : Book ι) := by
  intro pre j post he
  cases pre <;> cases he

omit [DecidableEq ι] in
/-- **What happens later repairs nothing.** -/
theorem InOrder.of_prefix (h : InOrder (es ++ es')) : InOrder es := by
  intro pre j post he i hb
  refine h pre j (post ++ es') ?_ i ?_
  · rw [he, List.append_assoc, List.cons_append]
  · unfold Before
    rw [joins_append]
    exact hb.trans (List.sublist_append_left _ _)

omit [DecidableEq ι] in
/-- Before a newcomer is everybody who joined. -/
theorem before_append_self (hi : i ∈ es.joins) : Before i j (es ++ [.joined j]) := by
  unfold Before
  rw [joins_append, joins_joined]
  exact (List.singleton_sublist.mpr hi).append (List.Sublist.refl [j])

omit [DecidableEq ι] in
/-- An entry that serves nobody new needs nobody to be gone: its pairs were there. -/
theorem before_append (hj : e.joins = none) : Before i j (es ++ [e]) ↔ Before i j es := by
  have hjoins : joins (es ++ [e]) = es.joins := by simp [joins, hj]
  unfold Before
  rw [hjoins]

omit [DecidableEq ι] in
/-- Someone who had joined has nobody new before them. -/
theorem before_of_join {k : ι} (honce : (joins (es ++ [.joined k])).Nodup) (hj : j ∈ es.joins)
    (hb : Before i j (es ++ [.joined k])) : Before i j es := by
  unfold Before at hb ⊢
  rw [joins_append, joins_joined] at hb honce
  obtain ⟨as, bs, hab, has, hbs⟩ := List.sublist_append_iff.mp hb
  rcases List.sublist_singleton.mp hbs with rfl | rfl
  · rw [hab, List.append_nil]
    exact has
  · -- the last to join would be `j` itself
    have hjk : j = k := by
      have := congrArg List.getLast? hab
      simpa using this
    rw [List.nodup_append] at honce
    exact absurd hjk (honce.2.2 j hj k (List.mem_singleton_self k))

omit [DecidableEq ι] in
theorem InOrder.append (h : InOrder es)
    (hjs : ∀ i j, Gone j es → Before i j (es ++ [e]) → Before i j es)
    (hlast : ∀ j, e = .served j → ∀ i, Before i j (es ++ [e]) → Gone i es) :
    InOrder (es ++ [e]) := by
  intro pre j post he i hb
  rcases List.append_eq_append_iff.mp he with ⟨as, hpre, hpost⟩ | ⟨bs, hes, hrest⟩
  · cases as with
    | nil =>
      rw [List.append_nil] at hpre
      rw [List.nil_append] at hpost
      rw [hpre]
      exact hlast j (List.cons.inj hpost).1 i hb
    | cons a as => cases as <;> simp at hpost
  · cases bs with
    | nil =>
      rw [List.append_nil] at hes
      rw [← hes]
      exact hlast j (List.cons.inj hrest).1.symm i hb
    | cons b bs =>
      obtain ⟨rfl, _⟩ := List.cons.inj hrest
      refine h pre j bs hes i (hjs i j ?_ hb)
      rw [hes]
      unfold Gone
      simp [leaves, Entry.leaves]

theorem InOrder.join (h : InOrder es) (ha : Accounted es line) (hi : i ∉ es.joins) :
    InOrder (es ++ [.joined i]) := by
  apply h.append
  · intro k j hj hb
    exact before_of_join (ha.join hi).once (ha.known j hj) hb
  · intro j he
    cases he

omit [DecidableEq ι] in
/-- Nobody is served by somebody leaving. -/
theorem InOrder.drop (h : InOrder es) : InOrder (es ++ [.dropped i]) := by
  apply h.append
  · intro k j _ hb
    exact (before_append rfl).mp hb
  · intro j he
    cases he

/-- **The head of the line may be served**: everybody before them is gone. -/
theorem InOrder.serve_head (h : InOrder es) (ha : Accounted es (j :: line)) :
    InOrder (es ++ [.served j]) := by
  apply h.append
  · intro i k _ hb
    exact (before_append rfl).mp hb
  · intro k he i hb
    cases he
    have hb : Before i j es := (before_append rfl).mp hb
    by_contra hi
    -- both are in the line, `i` first, and `j` heads it
    have hj : ¬ Gone j es := (ha.mem_line.mp (List.mem_cons_self ..)).2
    have hline : [i, j].Sublist (j :: line) := by
      rw [ha.line]
      have hsub := hb.filter fun k => k ∉ es.leaves
      have hi' : i ∉ es.leaves := hi
      have hj' : j ∉ es.leaves := hj
      rwa [List.filter_cons_of_pos (by simpa using hi'),
        List.filter_cons_of_pos (by simpa using hj'), List.filter_nil] at hsub
    have hnot : j ∉ line := (List.nodup_cons.mp ha.nodup).1
    cases hline with
    | cons _ hs => exact hnot (hs.subset (by simp))
    | cons_cons _ hs => exact hnot (hs.subset (by simp))

/-- **Serving somebody on arrival is in order just when nobody waits.** -/
theorem inOrder_pass (ha : Accounted es line) (hi : i ∉ es.joins) :
    InOrder (es ++ [.joined i] ++ [.served i]) ↔ InOrder es ∧ line = [] := by
  constructor
  · intro h
    refine ⟨h.of_prefix.of_prefix, List.eq_nil_iff_forall_not_mem.mpr ?_⟩
    intro k hk
    obtain ⟨hkj, hgone⟩ := ha.mem_line.mp hk
    have hb : Before k i (es ++ [.joined i] ++ [.served i]) :=
      (before_append rfl).mpr (before_append_self hkj)
    have := h (es ++ [.joined i]) i [] rfl k hb
    rw [mem_leaves_append, leaves_joined] at this
    rcases this with h | h
    · exact hgone h
    · cases h
  · rintro ⟨h, hline⟩
    have hjoin := h.join ha hi
    apply hjoin.append
    · intro k j _ hb
      exact (before_append rfl).mp hb
    · intro j he k hb
      cases he
      have hb : Before k i (es ++ [.joined i]) := (before_append rfl).mp hb
      have hk : k ∈ es.joins := by
        have hmem : k ∈ joins (es ++ [.joined i]) := hb.subset (by simp)
        rw [joins_append, joins_joined, List.mem_append, List.mem_singleton] at hmem
        rcases hmem with hmem | rfl
        · exact hmem
        · have := (ha.join hi).once.sublist hb
          simp at this
      rw [mem_leaves_append]
      by_contra hgone
      have : k ∈ line := ha.mem_line.mpr ⟨hk, fun hg => hgone (.inl hg)⟩
      rw [hline] at this
      cases this

end Book

end Fifo
