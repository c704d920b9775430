import Mathlib.Tactic.Tauto
import Mathlib.Data.List.Basic

/-!
# Ordered property maps

An association list that behaves as a dictionary with insertion order: `set` overwrites a
bound key where it stands and appends a key it has not seen. Reading is core's
`List.lookup`. `writes` is a run of `set`s, and `lookup_writes` is the one fact most
consumers want: after a run, a key holds the last value written to it, and a key nobody
wrote holds what it held before.
-/

set_option autoImplicit false

namespace Assoc

variable {κ α : Type} [DecidableEq κ]

/-- Bind `k` to `v`: a bound key keeps its position, a new one goes last. -/
def set (k : κ) (v : α) : List (κ × α) → List (κ × α)
  | [] => [(k, v)]
  | (k', v') :: l => if k' = k then (k, v) :: l else (k', v') :: set k v l

/-- The bound keys, in order. -/
def keys (l : List (κ × α)) : List κ := l.map Prod.fst

/-- A run of bindings, first one first. -/
def writes (ws : List (κ × α)) (l : List (κ × α)) : List (κ × α) :=
  ws.foldl (fun acc w => set w.1 w.2 acc) l

@[simp] theorem writes_nil (l : List (κ × α)) : writes [] l = l := rfl

@[simp] theorem writes_cons (w : κ × α) (ws l : List (κ × α)) :
    writes (w :: ws) l = writes ws (set w.1 w.2 l) := rfl

@[simp] theorem lookup_set_self (k : κ) (v : α) (l : List (κ × α)) :
    (set k v l).lookup k = some v := by
  induction l with
  | nil => simp [set]
  | cons p l ih =>
    obtain ⟨k', v'⟩ := p
    by_cases h : k' = k
    · simp [set, h]
    · have hne : (k == k') = false := by simpa using fun e => h (Eq.symm e)
      simp [set, h, List.lookup_cons, hne, ih]

theorem lookup_set_ne {k k' : κ} (h : k' ≠ k) (v : α) (l : List (κ × α)) :
    (set k v l).lookup k' = l.lookup k' := by
  induction l with
  | nil =>
    have hne : (k' == k) = false := by simpa using h
    simp [set, List.lookup_cons, hne]
  | cons p l ih =>
    obtain ⟨k₀, v₀⟩ := p
    by_cases h₀ : k₀ = k
    · subst h₀
      have hne : (k' == k₀) = false := by simpa using h
      simp [set, List.lookup_cons, hne]
    · simp only [set, if_neg h₀, List.lookup_cons]
      split <;> simp [ih]

/-- What one binding does to every lookup. -/
theorem lookup_set (k k' : κ) (v : α) (l : List (κ × α)) :
    (set k v l).lookup k' = if k' = k then some v else l.lookup k' := by
  by_cases h : k' = k
  · simp [h]
  · simp [h, lookup_set_ne h]

theorem mem_keys_set {k k' : κ} {v : α} {l : List (κ × α)} :
    k' ∈ keys (set k v l) ↔ k' = k ∨ k' ∈ keys l := by
  induction l with
  | nil => simp [set, keys]
  | cons p l ih =>
    obtain ⟨k₀, v₀⟩ := p
    by_cases h₀ : k₀ = k
    · subst h₀; simp [set, keys]
    · simp only [set, if_neg h₀, keys, List.map_cons, List.mem_cons] at ih ⊢
      rw [ih]
      tauto

/-- **After a run of bindings a key holds the last value written to it**; the reversed run
    is searched because `List.lookup` finds the first. -/
theorem lookup_writes (ws l : List (κ × α)) (k : κ) :
    (writes ws l).lookup k = (ws.reverse.lookup k).or (l.lookup k) := by
  induction ws generalizing l with
  | nil => simp
  | cons w ws ih =>
    obtain ⟨k₀, v₀⟩ := w
    rw [writes_cons, ih, lookup_set, List.reverse_cons, List.lookup_append]
    by_cases h : k = k₀
    · subst h; cases ws.reverse.lookup k <;> simp
    · have hne : (k == k₀) = false := by simpa using h
      cases ws.reverse.lookup k <;> simp [List.lookup_cons, hne, h]

/-- The value a run writes to a key is the last one it binds it to. -/
theorem lookup_reverse_getLast? (ws : List (κ × α)) (k : κ) :
    ws.reverse.lookup k = (ws.filter fun w => w.1 = k).getLast?.map Prod.snd := by
  induction ws with
  | nil => rfl
  | cons w ws ih =>
    obtain ⟨k₀, v₀⟩ := w
    rw [List.reverse_cons, List.lookup_append, ih]
    by_cases h : k₀ = k
    · subst h
      rw [List.filter_cons_of_pos (by simp), List.getLast?_cons]
      cases (ws.filter fun w => w.1 = k₀).getLast? <;> simp
    · have hne : (k == k₀) = false := by simpa using fun e => h (Eq.symm e)
      rw [List.filter_cons_of_neg (by simpa using h)]
      simp [List.lookup_cons, hne]

theorem mem_keys_writes {ws l : List (κ × α)} {k : κ} :
    k ∈ keys (writes ws l) ↔ k ∈ keys ws ∨ k ∈ keys l := by
  induction ws generalizing l with
  | nil => simp [keys]
  | cons w ws ih =>
    rw [writes_cons, ih, mem_keys_set]
    simp only [keys, List.map_cons, List.mem_cons]
    tauto

/-- Binding a bound key again leaves the keys as they are. -/
theorem keys_set_of_mem {k : κ} {v : α} {l : List (κ × α)} (h : k ∈ keys l) :
    keys (set k v l) = keys l := by
  induction l with
  | nil => cases h
  | cons p l ih =>
    obtain ⟨k₀, v₀⟩ := p
    by_cases h₀ : k₀ = k
    · simp [set, h₀, keys]
    · have hl : k ∈ keys l := by
        rcases List.mem_cons.mp h with he | hl
        · exact absurd he.symm h₀
        · exact hl
      have ih : List.map Prod.fst (set k v l) = List.map Prod.fst l := ih hl
      simp [set, h₀, keys, ih]

theorem nodup_keys_set {k : κ} {v : α} {l : List (κ × α)} (h : (keys l).Nodup) :
    (keys (set k v l)).Nodup := by
  induction l with
  | nil => simp [set, keys]
  | cons p l ih =>
    obtain ⟨k₀, v₀⟩ := p
    simp only [keys, List.map_cons, List.nodup_cons] at h
    by_cases h₀ : k₀ = k
    · subst h₀
      simpa [set, keys] using h
    · simp only [set, if_neg h₀, keys, List.map_cons, List.nodup_cons]
      refine ⟨fun hm => ?_, ih h.2⟩
      rcases mem_keys_set.mp hm with rfl | hm
      · exact h₀ rfl
      · exact h.1 hm

/-- A dictionary filled from an empty one never binds a key twice. -/
theorem nodup_keys_writes {ws l : List (κ × α)} (h : (keys l).Nodup) :
    (keys (writes ws l)).Nodup := by
  induction ws generalizing l with
  | nil => simpa using h
  | cons w ws ih => exact ih (nodup_keys_set h)

omit [DecidableEq κ] in
/-- What is read under a key is bound to it. -/
theorem mem_of_lookup [BEq κ] [LawfulBEq κ] {l : List (κ × α)} {k : κ} {v : α}
    (h : l.lookup k = some v) : (k, v) ∈ l := by
  obtain ⟨pre, post, rfl, _⟩ := List.lookup_eq_some_iff.mp h
  exact List.mem_append_right pre List.mem_cons_self

/-! ## Other values under the same keys -/

section Map

variable {β : Type} (f : α → β)

/-- The dictionary with `f` of every value. -/
def mapValues (l : List (κ × α)) : List (κ × β) := l.map fun p => (p.1, f p.2)

omit [DecidableEq κ] in
@[simp] theorem lookup_mapValues [BEq κ] (l : List (κ × α)) (k : κ) :
    (mapValues f l).lookup k = (l.lookup k).map f := by
  unfold mapValues
  induction l with
  | nil => rfl
  | cons p l ih =>
    rw [List.map_cons, List.lookup_cons, List.lookup_cons, ih]
    cases k == p.1 <;> rfl

theorem set_mapValues (k : κ) (v : α) (l : List (κ × α)) :
    set k (f v) (mapValues f l) = mapValues f (set k v l) := by
  unfold mapValues
  induction l with
  | nil => rfl
  | cons p l ih =>
    rw [List.map_cons, set, set, ih]
    by_cases h : p.1 = k
    · rw [if_pos h, if_pos h, List.map_cons]
    · rw [if_neg h, if_neg h, List.map_cons]

end Map

/-! ## Dictionaries that bind no key twice -/

/-- Reading does not depend on the direction of the search. -/
theorem lookup_reverse {l : List (κ × α)} (h : (keys l).Nodup) (k : κ) :
    l.reverse.lookup k = l.lookup k := by
  induction l with
  | nil => rfl
  | cons p l ih =>
    obtain ⟨k₀, v₀⟩ := p
    simp only [keys, List.map_cons, List.nodup_cons] at h
    rw [List.reverse_cons, List.lookup_append, ih h.2]
    by_cases hk : k = k₀
    · subst hk
      have hnone : l.lookup k = none := by
        rw [List.lookup_eq_none_iff]
        intro p hp
        have hne : k ≠ p.1 := fun e => h.1 (List.mem_map.mpr ⟨p, hp, e.symm⟩)
        simpa using hne
      simp [hnone]
    · have hne : (k == k₀) = false := by simpa using hk
      simp [List.lookup_cons, hne]

/-- Filtering by key leaves the other keys as they are. -/
theorem lookup_filter {p : κ → Bool} {k : κ} (h : p k = true) (l : List (κ × α)) :
    (l.filter fun b => p b.1).lookup k = l.lookup k := by
  induction l with
  | nil => rfl
  | cons b l ih =>
    obtain ⟨k₀, v₀⟩ := b
    by_cases hk : k = k₀
    · subst hk
      simp [List.filter, h]
    · have hne : (k == k₀) = false := by simpa using hk
      cases hp : p k₀ <;> simp [List.filter, hp, List.lookup_cons, hne, ih]

omit [DecidableEq κ] in
theorem nodup_keys_filter {p : κ × α → Bool} {l : List (κ × α)} (h : (keys l).Nodup) :
    (keys (l.filter p)).Nodup :=
  h.sublist (List.filter_sublist.map _)

theorem set_fresh {k : κ} {v : α} {l : List (κ × α)} (h : k ∉ keys l) :
    set k v l = l ++ [(k, v)] := by
  induction l with
  | nil => rfl
  | cons p l ih =>
    obtain ⟨k₀, v₀⟩ := p
    simp only [keys, List.map_cons, List.mem_cons, not_or] at h
    rw [set, if_neg (Ne.symm h.1), ih h.2, List.cons_append]

/-- A run of bindings of different keys is kept as it is. -/
theorem writes_fresh {ws l : List (κ × α)} (h : (keys (l ++ ws)).Nodup) :
    writes ws l = l ++ ws := by
  induction ws generalizing l with
  | nil => simp
  | cons w ws ih =>
    have hnew : w.1 ∉ keys l := by
      intro hm
      rw [keys, List.map_append, List.map_cons] at h
      exact (List.nodup_append.mp h).2.2 _ hm _ List.mem_cons_self rfl
    rw [writes_cons, set_fresh hnew]
    have hsplit : l ++ w :: ws = l ++ [w] ++ ws := by simp
    rw [hsplit] at h ⊢
    exact ih h

/-! ## A binding between others -/

section Middle

variable {k : κ} {v v' : α} {pre post : List (κ × α)}

omit [DecidableEq κ] in
theorem lookup_middle [BEq κ] [LawfulBEq κ] (h : k ∉ keys pre) :
    (pre ++ (k, v) :: post).lookup k = some v := by
  induction pre with
  | nil => simp
  | cons p pre ih =>
    obtain ⟨k₀, v₀⟩ := p
    simp only [keys, List.map_cons, List.mem_cons, not_or] at h
    have hne : (k == k₀) = false := by simpa using h.1
    rw [List.cons_append, List.lookup_cons, hne]
    exact ih h.2

omit [DecidableEq κ] in
/-- In a dictionary that binds no key twice its key is none of the others'. -/
theorem middle_fresh (h : (keys (pre ++ (k, v) :: post)).Nodup) :
    k ∉ keys pre ∧ k ∉ keys post := by
  unfold keys at h ⊢
  rw [List.map_append, List.map_cons] at h
  obtain ⟨_, hcons, hdisjoint⟩ := List.nodup_append.mp h
  refine ⟨fun hm => ?_, (List.nodup_cons.mp hcons).1⟩
  exact hdisjoint k hm k List.mem_cons_self rfl

/-- It is overwritten where it stands. -/
theorem set_middle (h : k ∉ keys pre) :
    set k v' (pre ++ (k, v) :: post) = pre ++ (k, v') :: post := by
  induction pre with
  | nil => simp [set]
  | cons p pre ih =>
    obtain ⟨k₀, v₀⟩ := p
    simp only [keys, List.map_cons, List.mem_cons, not_or] at h
    rw [List.cons_append, set, if_neg (Ne.symm h.1), ih h.2, List.cons_append]

/-- Deleting it leaves the others. -/
theorem filter_middle (hpre : k ∉ keys pre) (hpost : k ∉ keys post) :
    (pre ++ (k, v) :: post).filter (fun p => p.1 ≠ k) = pre ++ post := by
  have hall {l : List (κ × α)} (hl : k ∉ keys l) : l.filter (fun p => p.1 ≠ k) = l := by
    apply List.filter_eq_self.mpr
    intro p hp
    have hne : p.1 ≠ k := by
      intro he
      exact hl (List.mem_map.mpr ⟨p, hp, he⟩)
    exact decide_eq_true hne
  rw [List.filter_append, List.filter_cons_of_neg (by simp), hall hpre, hall hpost]

end Middle

end Assoc
