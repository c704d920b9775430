import Couchnode.Lib.Assoc

/-!
# Dictionaries of dictionaries

Bindings arrive one by one, each with the group it is for, and are filed in the dictionary of
their group, which is made when its first binding arrives. The groups do not see each other: in
the end each holds what its own bindings make of an empty dictionary (`lookup_fileAll`). So how
the bindings of different groups were mixed does not show (`lookup_fileAll_congr`).

Two lists that mix the same groups (`Mixed`) have the same members, and where the members are
bindings of one dictionary, grouped by their keys, they make the same of it.
-/

set_option autoImplicit false

namespace Grouped

variable {γ κ α : Type} [DecidableEq γ] [DecidableEq κ]

/-- File a binding under its group. -/
def file (b : γ × κ × α) (d : List (γ × List (κ × α))) : List (γ × List (κ × α)) :=
  Assoc.set b.1 (Assoc.set b.2.1 b.2.2 ((d.lookup b.1).getD [])) d

/-- A run of bindings, first one first. -/
def fileAll (bs : List (γ × κ × α)) (d : List (γ × List (κ × α))) : List (γ × List (κ × α)) :=
  bs.foldl (fun d b => file b d) d

/-- The bindings of one group, in the order they arrived. -/
def stream (g : γ) (bs : List (γ × κ × α)) : List (κ × α) :=
  (bs.filter fun b => b.1 = g).map Prod.snd

section Stream

variable {g : γ} {b : γ × κ × α} {bs : List (γ × κ × α)}

omit [DecidableEq κ] in
theorem stream_cons_self : stream b.1 (b :: bs) = b.2 :: stream b.1 bs := by
  simp [stream]

omit [DecidableEq κ] in
theorem stream_cons_ne (h : b.1 ≠ g) : stream g (b :: bs) = stream g bs := by
  simp [stream, h]

end Stream

variable {d : List (γ × List (κ × α))} {g : γ} {bs bs' : List (γ × κ × α)}

@[simp] theorem fileAll_cons (b : γ × κ × α) :
    fileAll (b :: bs) d = fileAll bs (file b d) := rfl

theorem lookup_file_self (b : γ × κ × α) :
    (file b d).lookup b.1 = some (Assoc.set b.2.1 b.2.2 ((d.lookup b.1).getD [])) :=
  Assoc.lookup_set_self _ _ _

theorem lookup_file_ne {b : γ × κ × α} (h : g ≠ b.1) : (file b d).lookup g = d.lookup g :=
  Assoc.lookup_set_ne h _ _

/-- **A group holds its own bindings**: those before the run, and the run's on top of them. -/
theorem lookup_fileAll :
    (fileAll bs d).lookup g =
      if stream g bs = [] then d.lookup g
      else some (Assoc.writes (stream g bs) ((d.lookup g).getD [])) := by
  induction bs generalizing d with
  | nil => rfl
  | cons b bs ih =>
    rw [fileAll_cons, ih]
    by_cases h : b.1 = g
    · subst h
      rw [lookup_file_self, stream_cons_self, if_neg (List.cons_ne_nil _ _), Assoc.writes_cons,
        Option.getD_some]
      -- the group is there from now on, also if nothing else is filed under it
      by_cases hrest : stream b.1 bs = []
      · rw [if_pos hrest, hrest, Assoc.writes_nil]
      · rw [if_neg hrest]
    · rw [stream_cons_ne h, lookup_file_ne (Ne.symm h)]

/-- In the end a group is there if anything was filed under it, and holds what was. -/
theorem lookup_fileAll_nil :
    (fileAll bs []).lookup g =
      if stream g bs = [] then none else some (Assoc.writes (stream g bs) []) := by
  rw [lookup_fileAll]
  rfl

/-- **Only the order within the groups matters.** -/
theorem lookup_fileAll_congr (h : ∀ g, stream g bs = stream g bs') (g : γ) :
    (fileAll bs d).lookup g = (fileAll bs' d).lookup g := by
  rw [lookup_fileAll, lookup_fileAll, h g]

/-- **A key of a group holds the last value bound to it.** -/
theorem lookup_writes_stream (k : κ) :
    (Assoc.writes (stream g bs) []).lookup k =
      (bs.filter fun b => b.1 = g ∧ b.2.1 = k).getLast?.map fun b => b.2.2 := by
  have hfilter : (stream g bs).filter (fun w => w.1 = k) =
      (bs.filter fun b => b.1 = g ∧ b.2.1 = k).map Prod.snd := by
    unfold stream
    rw [List.filter_map, List.filter_filter]
    congr 1
    apply List.filter_congr
    intro b _
    simp only [Function.comp_apply, Bool.decide_and, Bool.and_comm]
  rw [Assoc.lookup_writes, Assoc.lookup_reverse_getLast?, hfilter, List.getLast?_map,
    List.lookup_nil, Option.or_none, Option.map_map]
  rfl

/-! ## Two mixes of the same groups -/

variable {β : Type} {group : α → γ} {l l' : List α}

/-- The members of every group are the same, in the same order. -/
def Mixed (group : α → γ) (l l' : List α) : Prop :=
  ∀ g, l'.filter (fun a => group a = g) = l.filter fun a => group a = g

theorem Mixed.perm (h : Mixed group l l') : l'.Perm l := by
  classical
  rw [List.perm_iff_count]
  intro a
  have hself (l : List α) : (l.filter fun b => group b = group a).count a = l.count a :=
    List.count_filter (decide_eq_true rfl)
  rw [← hself l', ← hself l, h]

theorem Mixed.append (h : Mixed group l l') (l₀ : List α) : Mixed group (l₀ ++ l) (l₀ ++ l') := by
  intro g
  rw [List.filter_append, List.filter_append, h g]

theorem Mixed.map {f : β → α} {l l' : List β} (h : Mixed (fun b => group (f b)) l l') :
    Mixed group (l.map f) (l'.map f) := by
  intro g
  rw [List.filter_map, List.filter_map]
  exact congrArg (List.map f) (h g)

/-- Where no group has two members any order will do. -/
theorem Mixed.of_perm (hnd : (l.map group).Nodup) (hperm : l'.Perm l) : Mixed group l l' := by
  intro g
  have hfilter := hperm.filter fun a => decide (group a = g)
  have hnd' := hnd.sublist ((List.filter_sublist (p := fun a => decide (group a = g))).map group)
  have hg : ∀ a ∈ l.filter fun a => decide (group a = g), group a = g :=
    fun a ha => of_decide_eq_true (List.mem_filter.mp ha).2
  generalize (l.filter fun a => decide (group a = g)) = m at hfilter hnd' hg
  match m with
  | [] => exact hfilter.eq_nil
  | [a] => exact List.perm_singleton.mp hfilter
  | a :: b :: m =>
    have heq : group a = group b := (hg a (by simp)).trans (hg b (by simp)).symm
    simp [heq] at hnd'

/-- **A key holds the last value bound to it**, however the bindings of the others were mixed in. -/
theorem Mixed.lookup_writes {ws ws' l : List (κ × α)} (h : Mixed Prod.fst ws ws') (k : κ) :
    (Assoc.writes ws' l).lookup k = (Assoc.writes ws l).lookup k := by
  rw [Assoc.lookup_writes, Assoc.lookup_writes, Assoc.lookup_reverse_getLast?,
    Assoc.lookup_reverse_getLast?, h k]

end Grouped
