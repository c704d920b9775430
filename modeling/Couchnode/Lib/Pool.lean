import Couchnode.Lib.Run
import Mathlib.Data.List.Nodup
import Mathlib.Data.List.Perm.Basic

/-!
# Components that run side by side

A pool of components, each with a name of its own. An entry of a schedule is a message to one of
them, which goes on or is finished by it (`move`). The components share nothing, so what becomes of
one depends on its own messages only: `follow` is one component alone, `own` are its messages in
a schedule, and `exec_pool` says that a run of the pool is each component alone, `exec_of_outcomes`
that the pool runs whenever they all do. Two schedules under which every component fares alike
leave the pool alike (`exec_alike`).
-/

set_option autoImplicit false

/-- The components at work, and those that are finished. -/
structure Pool (σ : Type) where
  live : List σ
  done : List σ

namespace Pool

variable {σ ι α : Type} [DecidableEq ι]

section Defs

variable (name : σ → ι) (move : α → σ → Option (σ × Bool))

/-- Component `s` has become `s'`, and is finished or not. -/
def settle (s s' : σ) (ended : Bool) (p : Pool σ) : Pool σ :=
  if ended then
    { live := p.live.filter fun t => name t ≠ name s, done := p.done ++ [s'] }
  else { p with live := p.live.map fun t => if name t = name s then s' else t }

/-- One entry of a schedule. -/
def act (e : ι × α) (p : Pool σ) : Option (Pool σ) := do
  let s ← p.live.find? fun s => name s = e.1
  let (s', ended) ← move e.2 s
  some (p.settle name s s' ended)

/-- The messages to one component. -/
def own (i : ι) (es : List (ι × α)) : List α :=
  es.filterMap fun e => if e.1 = i then some e.2 else none

/-- One component alone; once finished it takes no more messages. -/
def follow : List α → σ → Option (σ × Bool)
  | [], s => some (s, false)
  | a :: as, s =>
    match move a s with
    | none => none
    | some (s', true) => if as.isEmpty then some (s', true) else none
    | some (s', false) => follow as s'

/-- What becomes of a component in a schedule. -/
def outcome (es : List (ι × α)) (s : σ) : Option (σ × Bool) := follow move (own (name s) es) s

end Defs

/-- A component that is still at work. -/
def working : Option (σ × Bool) → Option σ
  | some (s, false) => some s
  | _ => none

/-- A component that is finished. -/
def finished : Option (σ × Bool) → Option σ
  | some (s, true) => some s
  | _ => none

variable {name : σ → ι} {move : α → σ → Option (σ × Bool)} {p p' : Pool σ} {s s' : σ}
  {e : ι × α} {es es' : List (ι × α)} {i : ι}

/-! ## One message -/

theorem own_self (h : e.1 = i) : own i (e :: es) = e.2 :: own i es := by
  simp [own, h]

theorem own_other (h : e.1 ≠ i) : own i (e :: es) = own i es := by
  simp [own, h]

theorem own_eq_nil : own i es = [] ↔ ∀ e ∈ es, e.1 ≠ i := by
  unfold own
  rw [List.filterMap_eq_nil_iff]
  refine forall₂_congr fun e _ => ?_
  by_cases h : e.1 = i <;> simp [h]

omit [DecidableEq ι] in
/-- A component stands once in the pool. -/
theorem split (hnd : (p.live.map name).Nodup) (hs : s ∈ p.live) :
    ∃ l₁ l₂, p.live = l₁ ++ s :: l₂ ∧ ∀ t ∈ l₁ ++ l₂, name t ≠ name s := by
  obtain ⟨l₁, l₂, hl⟩ := List.append_of_mem hs
  refine ⟨l₁, l₂, hl, ?_⟩
  rw [hl, List.map_append, List.map_cons, List.nodup_middle, List.nodup_cons] at hnd
  intro t ht hn
  apply hnd.1
  rw [← List.map_append, ← hn]
  exact List.mem_map_of_mem ht

variable {l₁ l₂ : List σ}

theorem filter_split (h : ∀ t ∈ l₁ ++ l₂, name t ≠ name s) :
    (l₁ ++ s :: l₂).filter (fun t => name t ≠ name s) = l₁ ++ l₂ := by
  rw [List.filter_append, List.filter_cons_of_neg (by simp), ← List.filter_append,
    List.filter_eq_self]
  intro t ht
  exact decide_eq_true (h t ht)

theorem map_split (h : ∀ t ∈ l₁ ++ l₂, name t ≠ name s) :
    (l₁ ++ s :: l₂).map (fun t => if name t = name s then s' else t) = l₁ ++ s' :: l₂ := by
  have hid (l : List σ) (hl : ∀ t ∈ l, name t ≠ name s) :
      l.map (fun t => if name t = name s then s' else t) = l := by
    refine (List.map_congr_left ?_).trans (List.map_id l)
    intro t ht
    exact if_neg (hl t ht)
  rw [List.map_append, List.map_cons, if_pos rfl,
    hid l₁ fun t ht => h t (List.mem_append_left _ ht),
    hid l₂ fun t ht => h t (List.mem_append_right _ ht)]

/-- What one entry of a schedule does. -/
theorem act_cases (hnd : (p.live.map name).Nodup) (h : act name move e p = some p') :
    ∃ l₁ s l₂ s' ended, p.live = l₁ ++ s :: l₂ ∧ name s = e.1 ∧
      (∀ t ∈ l₁ ++ l₂, name t ≠ name s) ∧ move e.2 s = some (s', ended) ∧
      p' = if ended then { live := l₁ ++ l₂, done := p.done ++ [s'] }
        else { p with live := l₁ ++ s' :: l₂ } := by
  obtain ⟨s, hs, h⟩ := Option.bind_eq_some_iff.mp h
  obtain ⟨⟨s', ended⟩, hm, h⟩ := Option.bind_eq_some_iff.mp h
  obtain ⟨l₁, l₂, hl, hne⟩ := split hnd (List.mem_of_find?_eq_some hs)
  have hname : name s = e.1 := by simpa using List.find?_some hs
  refine ⟨l₁, s, l₂, s', ended, hl, hname, hne, hm, ?_⟩
  cases h
  unfold settle
  rw [hl, filter_split hne, map_split hne]

/-! ## A schedule -/

section Schedule

variable (hname : ∀ a s s' ended, move a s = some (s', ended) → name s' = name s)

omit [DecidableEq ι] in
theorem follow_on {a : α} {as : List α} (h : move a s = some (s', false)) :
    follow move (a :: as) s = follow move as s' := by
  rw [follow, h]

omit [DecidableEq ι] in
theorem follow_over {a : α} (h : move a s = some (s', true)) :
    follow move [a] s = some (s', true) := by
  rw [follow, h]
  rfl

/-- A message to another component changes nothing. -/
theorem outcome_other {l : List σ} (h : ∀ t ∈ l, name t ≠ e.1) :
    l.map (outcome name move (e :: es)) = l.map (outcome name move es) := by
  refine List.map_congr_left fun t ht => ?_
  unfold outcome
  rw [own_other (Ne.symm (h t ht))]

/-- A message that a component takes. -/
theorem outcome_self (hs : name s = e.1) :
    outcome name move (e :: es) s = follow move (e.2 :: own (name s) es) s := by
  unfold outcome
  rw [own_self hs.symm]

/-- One entry, as the components see it. -/
theorem outcomes_cons (hs : name s = e.1) (hne : ∀ t ∈ l₁ ++ l₂, name t ≠ name s) :
    (l₁ ++ s :: l₂).map (outcome name move (e :: es)) =
      l₁.map (outcome name move es) ++ follow move (e.2 :: own (name s) es) s ::
        l₂.map (outcome name move es) := by
  have hleft : ∀ t ∈ l₁, name t ≠ e.1 := fun t ht => hs ▸ hne t (List.mem_append_left _ ht)
  have hright : ∀ t ∈ l₂, name t ≠ e.1 := fun t ht => hs ▸ hne t (List.mem_append_right _ ht)
  rw [List.map_append, List.map_cons, outcome_other hleft, outcome_other hright, outcome_self hs]

include hname

/-- **A run of the pool is each component alone.** -/
theorem exec_pool (hnd : (p.live.map name).Nodup)
    (h : Run.exec (act name move) p es = some p') :
    p'.live = (p.live.map (outcome name move es)).filterMap working ∧
      p'.done.Perm (p.done ++ (p.live.map (outcome name move es)).filterMap finished) ∧
      (∀ e ∈ es, e.1 ∈ p.live.map name) ∧ none ∉ p.live.map (outcome name move es) := by
  induction es generalizing p with
  | nil =>
    obtain rfl : p = p' := Option.some.inj h
    have hstill : p.live.map (outcome name move ([] : List (ι × α))) =
        p.live.map fun s => some (s, false) := rfl
    have hnone : (p.live.map fun s => some (s, false)).filterMap finished = [] := by
      rw [List.filterMap_map]
      exact List.filterMap_eq_nil_iff.mpr fun _ _ => rfl
    rw [hstill, hnone, List.append_nil, List.filterMap_map]
    refine ⟨List.filterMap_some.symm, .refl _, ?_, ?_⟩
    · intro e he
      cases he
    · simp
  | cons e es ih =>
    obtain ⟨p₁, h₁, h⟩ := Run.exec_cons.mp h
    obtain ⟨l₁, s, l₂, s', ended, hl, hs, hne, hm, hp₁⟩ := act_cases hnd h₁
    rw [hl] at hnd ⊢
    rw [outcomes_cons hs hne]
    cases ended with
    | true =>
      have hp₁ : p₁ = { live := l₁ ++ l₂, done := p.done ++ [s'] } := hp₁
      subst hp₁
      have hnd₁ : ((l₁ ++ l₂).map name).Nodup :=
        hnd.sublist ((List.Sublist.append_left (List.sublist_cons_self s l₂) l₁).map name)
      obtain ⟨hlive, hdone, hnames, hsome⟩ := ih hnd₁ h
      -- the component has left the pool, so nothing more is said to it
      have hown : own (name s) es = [] := by
        rw [own_eq_nil]
        intro e' he'
        obtain ⟨t, ht, he⟩ := List.mem_map.mp (hnames e' he')
        rw [← he]
        exact hne t ht
      rw [hown, follow_over hm]
      rw [List.map_append] at hlive hdone hsome
      refine ⟨?_, ?_, ?_, ?_⟩
      · rw [hlive, List.filterMap_append, List.filterMap_append]
        rfl
      · refine hdone.trans ?_
        have hlast : finished (some (s', true)) = some s' := rfl
        rw [List.append_assoc, List.filterMap_append, List.filterMap_append,
          List.filterMap_cons_some hlast, List.singleton_append]
        exact List.perm_middle.symm.append_left _
      · intro e' he'
        rcases List.mem_cons.mp he' with rfl | he'
        · rw [← hs]
          exact List.mem_map_of_mem (by simp)
        · obtain ⟨t, ht, he⟩ := List.mem_map.mp (hnames e' he')
          rw [← he]
          refine List.mem_map_of_mem ?_
          rcases List.mem_append.mp ht with ht | ht
          · exact List.mem_append_left _ ht
          · exact List.mem_append_right _ (List.mem_cons_of_mem _ ht)
      · simpa using hsome
    | false =>
      have hp₁ : p₁ = { p with live := l₁ ++ s' :: l₂ } := hp₁
      subst hp₁
      have hn' := hname _ _ _ _ hm
      have hnames' : (l₁ ++ s' :: l₂).map name = (l₁ ++ s :: l₂).map name := by simp [hn']
      have hsame : (l₁ ++ s' :: l₂).map (outcome name move es) =
          l₁.map (outcome name move es) ++ follow move (e.2 :: own (name s) es) s ::
            l₂.map (outcome name move es) := by
        rw [List.map_append, List.map_cons, follow_on hm, ← hn']
        rfl
      obtain ⟨hlive, hdone, hnames, hsome⟩ := ih (hnames'.symm ▸ hnd) h
      simp only [hsame] at hlive hdone hsome
      refine ⟨hlive, hdone, ?_, hsome⟩
      intro e' he'
      rcases List.mem_cons.mp he' with rfl | he'
      · rw [← hs]
        exact List.mem_map_of_mem (by simp)
      · rw [← hnames']
        exact hnames e' he'

/-- **The pool runs whenever every component does.** -/
theorem exec_of_outcomes (hnd : (p.live.map name).Nodup)
    (hnames : ∀ e ∈ es, e.1 ∈ p.live.map name)
    (hsome : none ∉ p.live.map (outcome name move es)) :
    ∃ p', Run.exec (act name move) p es = some p' := by
  induction es generalizing p with
  | nil => exact ⟨p, rfl⟩
  | cons e es ih =>
    obtain ⟨s, hs, hse⟩ := List.mem_map.mp (hnames e List.mem_cons_self)
    obtain ⟨l₁, l₂, hl, hne⟩ := split hnd hs
    rw [hl] at hnd hsome
    rw [outcomes_cons hse hne] at hsome
    have hfind : p.live.find? (fun s => name s = e.1) = some s := by
      rw [hl, List.find?_append, List.find?_eq_none.mpr, Option.none_or,
        List.find?_cons_of_pos (by simpa using hse)]
      intro t ht
      simpa [hse] using hne t (List.mem_append_left _ ht)
    have hfollow : follow move (e.2 :: own (name s) es) s ≠ none := by
      intro hnone
      rw [hnone] at hsome
      simp at hsome
    cases hm : move e.2 s with
    | none =>
      rw [follow, hm] at hfollow
      exact absurd rfl hfollow
    | some r =>
      obtain ⟨s', ended⟩ := r
      have hact : act name move e p = some (p.settle name s s' ended) := by
        unfold act
        rw [hfind]
        simp only [Option.bind_eq_bind, Option.bind_some, hm]
      cases ended with
      | true =>
        have hp₁ : p.settle name s s' true = { live := l₁ ++ l₂, done := p.done ++ [s'] } := by
          unfold settle
          rw [hl, filter_split hne]
          rfl
        -- the component was followed to its end, so nothing more is said to it
        have hown : own (name s) es = [] := by
          rw [follow, hm] at hfollow
          by_contra hnil
          apply hfollow
          show (if (own (name s) es).isEmpty then some (s', true) else none) = none
          rw [if_neg]
          simpa using hnil
        have hrest : ∃ p', Run.exec (act name move) (p.settle name s s' true) es = some p' := by
          apply ih
          · rw [hp₁]
            exact hnd.sublist
              ((List.Sublist.append_left (List.sublist_cons_self s l₂) l₁).map name)
          · intro e' he'
            have hmem := hnames e' (List.mem_cons_of_mem _ he')
            rw [hl, List.map_append, List.map_cons, List.mem_append, List.mem_cons] at hmem
            rw [hp₁, List.map_append, List.mem_append]
            rcases hmem with hmem | hmem | hmem
            · exact .inl hmem
            · exact absurd hmem (own_eq_nil.mp hown e' he')
            · exact .inr hmem
          · rw [hp₁, List.map_append]
            simp only [List.mem_append, List.mem_cons, not_or] at hsome ⊢
            exact ⟨hsome.1, hsome.2.2⟩
        obtain ⟨p', hp'⟩ := hrest
        exact ⟨p', Run.exec_cons.mpr ⟨_, hact, hp'⟩⟩
      | false =>
        have hp₁ : p.settle name s s' false = { p with live := l₁ ++ s' :: l₂ } := by
          unfold settle
          rw [hl, map_split hne]
          rfl
        have hn' := hname _ _ _ _ hm
        have hnames' : (l₁ ++ s' :: l₂).map name = (l₁ ++ s :: l₂).map name := by simp [hn']
        have hrest : ∃ p', Run.exec (act name move) (p.settle name s s' false) es = some p' := by
          apply ih
          · rw [hp₁]
            exact hnames'.symm ▸ hnd
          · intro e' he'
            have hmem := hnames e' (List.mem_cons_of_mem _ he')
            rw [hl, ← hnames'] at hmem
            rw [hp₁]
            exact hmem
          · rw [hp₁, List.map_append, List.map_cons]
            rw [follow_on hm, ← hn'] at hsome
            exact hsome
        obtain ⟨p', hp'⟩ := hrest
        exact ⟨p', Run.exec_cons.mpr ⟨_, hact, hp'⟩⟩

omit hname in
/-- Where every component fares alike, those at work and those finished are alike, one by one. -/
theorem outcomes_alike {R : σ → σ → Prop} {l : List σ}
    (hsome : none ∉ l.map (outcome name move es))
    (hout : ∀ s ∈ l, ∀ s₁ ended, outcome name move es s = some (s₁, ended) →
      ∃ s₂, outcome name move es' s = some (s₂, ended) ∧ R s₁ s₂) :
    none ∉ l.map (outcome name move es') ∧
      List.Forall₂ R ((l.map (outcome name move es)).filterMap working)
        ((l.map (outcome name move es')).filterMap working) ∧
      List.Forall₂ R ((l.map (outcome name move es)).filterMap finished)
        ((l.map (outcome name move es')).filterMap finished) := by
  induction l with
  | nil => exact ⟨List.not_mem_nil, .nil, .nil⟩
  | cons s l ih =>
    rw [List.map_cons, List.mem_cons, not_or] at hsome
    obtain ⟨hnone, hw, hf⟩ := ih hsome.2 fun t ht => hout t (List.mem_cons_of_mem _ ht)
    cases ho : outcome name move es s with
    | none => exact absurd ho.symm hsome.1
    | some o =>
      obtain ⟨s₁, ended⟩ := o
      obtain ⟨s₂, ho', hR⟩ := hout s List.mem_cons_self s₁ ended ho
      rw [List.map_cons, List.map_cons, ho, ho']
      refine ⟨?_, ?_, ?_⟩
      · simpa using hnone
      · cases ended
        · exact .cons hR hw
        · exact hw
      · cases ended
        · exact hf
        · exact .cons hR hf

/-- **Schedules under which every component fares alike leave the pool alike.** -/
theorem exec_alike (hnd : (p.live.map name).Nodup) {R : σ → σ → Prop} (hrefl : ∀ s, R s s)
    (hmem : ∀ e ∈ es', own e.1 es ≠ [])
    (hout : ∀ s ∈ p.live, ∀ s₁ ended, outcome name move es s = some (s₁, ended) →
      ∃ s₂, outcome name move es' s = some (s₂, ended) ∧ R s₁ s₂)
    (h : Run.exec (act name move) p es = some p') :
    ∃ p'', Run.exec (act name move) p es' = some p'' ∧ List.Forall₂ R p'.live p''.live ∧
      ∃ l, p''.done.Perm l ∧ List.Forall₂ R p'.done l := by
  obtain ⟨hlive, hdone, hnames, hsome⟩ := exec_pool hname hnd h
  have hnames' : ∀ e ∈ es', e.1 ∈ p.live.map name := by
    intro e he
    have hne := hmem e he
    rw [ne_eq, own_eq_nil] at hne
    push Not at hne
    obtain ⟨e', he', heq⟩ := hne
    rw [← heq]
    exact hnames e' he'
  obtain ⟨hsome', hw, hf⟩ := outcomes_alike hsome hout
  obtain ⟨p'', hp''⟩ := exec_of_outcomes hname hnd hnames' hsome'
  obtain ⟨hlive', hdone', _, _⟩ := exec_pool hname hnd hp''
  refine ⟨p'', hp'', ?_, ?_⟩
  · rw [hlive, hlive']
    exact hw
  · have hsame : List.Forall₂ R (p.done ++ (p.live.map (outcome name move es)).filterMap finished)
        (p.done ++ (p.live.map (outcome name move es')).filterMap finished) :=
      List.rel_append (List.forall₂_same.mpr fun s _ => hrefl s) hf
    obtain ⟨l, hl, hperm⟩ := List.perm_comp_forall₂ hdone hsame
    exact ⟨l, hdone'.trans hperm.symm, hl⟩

/-! ## Emptying the pool -/

omit hname in
theorem own_append : own i (es ++ es') = own i es ++ own i es' := List.filterMap_append

omit hname in
/-- The messages of one component in the schedule that takes the components one by one. -/
theorem own_flatMap (script : σ → List α) {l : List σ} (hnd : (l.map name).Nodup) (hs : s ∈ l) :
    own (name s) (l.flatMap fun t => (script t).map fun a => (name t, a)) = script s := by
  have hown (t : σ) : own (name s) ((script t).map fun a => (name t, a)) =
      if name t = name s then script t else [] := by
    unfold own
    rw [List.filterMap_map]
    by_cases h : name t = name s
    · rw [if_pos h]
      refine (List.filterMap_congr fun a _ => ?_).trans List.filterMap_some
      exact if_pos h
    · rw [if_neg h, List.filterMap_eq_nil_iff]
      intro a _
      exact if_neg h
  induction l with
  | nil => cases hs
  | cons t l ih =>
    rw [List.map_cons, List.nodup_cons] at hnd
    rw [List.flatMap_cons, own_append, hown]
    rcases List.mem_cons.mp hs with rfl | hs
    · rw [if_pos rfl, own_eq_nil.mpr, List.append_nil]
      intro e he
      obtain ⟨t, ht, he⟩ := List.mem_flatMap.mp he
      obtain ⟨a, _, rfl⟩ := List.mem_map.mp he
      exact fun hn => hnd.1 (hn ▸ List.mem_map_of_mem ht)
    · have hne : name t ≠ name s := fun hn => hnd.1 (hn ▸ List.mem_map_of_mem hs)
      rw [if_neg hne, List.nil_append]
      exact ih hnd.2 hs

/-- **Where every component can be finished, the pool can be emptied.** -/
theorem exec_finish (hnd : (p.live.map name).Nodup) {script : σ → List α}
    (hfin : ∀ s ∈ p.live, ∃ s', follow move (script s) s = some (s', true)) :
    ∃ es p', Run.exec (act name move) p es = some p' ∧ p'.live = [] := by
  let es : List (ι × α) := p.live.flatMap fun t => (script t).map fun a => (name t, a)
  have hout : ∀ s ∈ p.live, ∃ s', outcome name move es s = some (s', true) := by
    intro s hs
    obtain ⟨s', hs'⟩ := hfin s hs
    refine ⟨s', ?_⟩
    unfold outcome
    rw [own_flatMap script hnd hs, hs']
  have hnames : ∀ e ∈ es, e.1 ∈ p.live.map name := by
    intro e he
    obtain ⟨t, ht, he⟩ := List.mem_flatMap.mp he
    obtain ⟨a, _, rfl⟩ := List.mem_map.mp he
    exact List.mem_map_of_mem ht
  have hsome : none ∉ p.live.map (outcome name move es) := by
    intro hmem
    obtain ⟨s, hs, hnone⟩ := List.mem_map.mp hmem
    obtain ⟨s', hs'⟩ := hout s hs
    rw [hs'] at hnone
    cases hnone
  obtain ⟨p', hp'⟩ := exec_of_outcomes hname hnd hnames hsome
  refine ⟨es, p', hp', ?_⟩
  rw [(exec_pool hname hnd hp').1, List.filterMap_eq_nil_iff]
  intro o ho
  obtain ⟨s, hs, rfl⟩ := List.mem_map.mp ho
  obtain ⟨s', hs'⟩ := hout s hs
  rw [hs']
  rfl

end Schedule

end Pool
