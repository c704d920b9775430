/-!
# Programs that finish, refuse or fault

A method of a validating component can end in three ways: it finishes with a result, it
*refuses* (returns `false` after recording why, and every caller returns `false` in turn),
or it *faults* (an abort, an assertion, a read through a dead pointer). `Prog` is the state
monad over those three outcomes, so `do` blocks short-circuit on a refusal the way a chain
of `if (!f()) return false;` does.

`Triple P x Q R` is partial correctness with two exits: from a state in `P`, if `x`
finishes then `Q` holds of its result and final state, and if it refuses then `R` holds of
the state it leaves. Faults are not excluded here — a component that must not fault proves
that by exhibiting its outcome. The rules are one per combinator; `Triple.each` is the loop
rule, over an invariant indexed by the number of items already processed.
-/

set_option autoImplicit false

/-- The ways a program can end. -/
inductive Outcome (σ α : Type) where
  | fault
  | refused (s : σ)
  | done (a : α) (s : σ)

/-- A program over states `σ` with results in `α`. -/
def Prog (σ α : Type) : Type := σ → Outcome σ α

/-- The program finished, and what it left passes a test. -/
def Outcome.check {σ α : Type} (test : α → σ → Bool) : Outcome σ α → Bool
  | .done a s => test a s
  | _ => false

theorem Outcome.exists_of_check {σ α : Type} (o : Outcome σ α) (test : α → σ → Bool)
    (h : o.check test = true) : ∃ a s, o = .done a s ∧ test a s = true := by
  cases o with
  | fault => cases h
  | refused s => cases h
  | done a s => exact ⟨a, s, rfl, h⟩

/-- The program faulted. -/
def Outcome.isFault {σ α : Type} : Outcome σ α → Bool
  | .fault => true
  | _ => false

theorem Outcome.eq_fault {σ α : Type} (o : Outcome σ α) (h : o.isFault = true) : o = .fault := by
  cases o with
  | fault => rfl
  | refused s => cases h
  | done a s => cases h

namespace Prog

variable {σ α β γ : Type}

/-- Finish at once. -/
def ret (a : α) : Prog σ α := fun s => .done a s

/-- Run `x`, then `f` on its result; a refusal or a fault of `x` ends the whole. -/
def andThen (x : Prog σ α) (f : α → Prog σ β) : Prog σ β := fun s =>
  match x s with
  | .fault => .fault
  | .refused s' => .refused s'
  | .done a s' => f a s'

instance : Monad (Prog σ) where
  pure := ret
  bind := andThen

/-- Change the state. -/
def modify (f : σ → σ) : Prog σ Unit := fun s => .done () (f s)

/-- Return `false`. -/
def refuse : Prog σ α := fun s => .refused s

/-- Stop the process. -/
def fault : Prog σ α := fun _ => .fault

/-- `if (c) x;` -/
def when (c : Prop) [Decidable c] (x : Prog σ Unit) : Prog σ Unit := if c then x else ret ()

/-- The loop `for (i = start; ...; i++) body(i, xs[i - start])`. -/
def each (body : Nat → β → Prog σ Unit) : Nat → List β → Prog σ Unit
  | _, [] => ret ()
  | i, x :: xs => andThen (body i x) fun _ => each body (i + 1) xs

theorem each_map (body : Nat → γ → Prog σ Unit) (f : β → γ) (i : Nat) (xs : List β) :
    each body i (xs.map f) = each (fun i x => body i (f x)) i xs := by
  induction xs generalizing i with
  | nil => rfl
  | cons x xs ih =>
    rw [List.map_cons, each, each, ih]

theorem each_singleton (body : Nat → β → Prog σ Unit) (i : Nat) (x : β) :
    each body i [x] = body i x := by
  funext s
  show andThen (body i x) (fun _ => ret ()) s = body i x s
  unfold andThen
  cases body i x s with
  | fault => rfl
  | refused s' => rfl
  | done u s' => rfl

section Run

variable {x : Prog σ α} {f : α → Prog σ β} {s s' : σ}

theorem bind_run : (x >>= f) s = andThen x f s := rfl

theorem bind_of_done {a : α} (h : x s = .done a s') : (x >>= f) s = f a s' := by
  simp only [bind_run, andThen, h]

theorem bind_of_refused (h : x s = .refused s') : (x >>= f) s = .refused s' := by
  simp only [bind_run, andThen, h]

theorem bind_of_fault (h : x s = .fault) : (x >>= f) s = .fault := by
  simp only [bind_run, andThen, h]

theorem bind_eq_done {b : β} :
    (x >>= f) s = .done b s' ↔ ∃ a s₁, x s = .done a s₁ ∧ f a s₁ = .done b s' := by
  simp only [bind_run, andThen]
  cases x s with
  | fault => simp
  | refused s₁ => simp
  | done a s₁ =>
    constructor
    · intro h; exact ⟨a, s₁, rfl, h⟩
    · rintro ⟨_, _, h, hf⟩; cases h; exact hf

theorem bind_eq_fault :
    (x >>= f) s = .fault ↔ x s = .fault ∨ ∃ a s₁, x s = .done a s₁ ∧ f a s₁ = .fault := by
  simp only [bind_run, andThen]
  cases x s with
  | fault => simp
  | refused s₁ => simp
  | done a s₁ =>
    constructor
    · intro h; exact Or.inr ⟨a, s₁, rfl, h⟩
    · rintro (h | ⟨_, _, h, hf⟩)
      · cases h
      · cases h; exact hf

theorem bind_eq_refused :
    (x >>= f) s = .refused s' ↔
      x s = .refused s' ∨ ∃ a s₁, x s = .done a s₁ ∧ f a s₁ = .refused s' := by
  simp only [bind_run, andThen]
  cases x s with
  | fault => simp
  | refused s₁ => simp
  | done a s₁ =>
    constructor
    · intro h; exact Or.inr ⟨a, s₁, rfl, h⟩
    · rintro (h | ⟨_, _, h, hf⟩)
      · cases h
      · cases h; exact hf

end Run

/-! ## Triples -/

/-- What an outcome must satisfy, by the way it ended. -/
def Sat (Q : α → σ → Prop) (R : σ → Prop) : Outcome σ α → Prop
  | .fault => True
  | .refused s => R s
  | .done a s => Q a s

/-- Partial correctness with a post-condition for finishing and one for refusing. -/
def Triple (P : σ → Prop) (x : Prog σ α) (Q : α → σ → Prop) (R : σ → Prop) : Prop :=
  ∀ s, P s → Sat Q R (x s)

namespace Triple

variable {P P' : σ → Prop} {Q Q' : α → σ → Prop} {R R' : σ → Prop} {x : Prog σ α}

theorem conseq (h : Triple P x Q R) (hP : ∀ s, P' s → P s) (hQ : ∀ a s, Q a s → Q' a s)
    (hR : ∀ s, R s → R' s) : Triple P' x Q' R' := by
  intro s hs
  have := h s (hP s hs)
  cases hx : x s with
  | fault => trivial
  | refused s' => rw [hx] at this; exact hR _ this
  | done a s' => rw [hx] at this; exact hQ _ _ this

theorem post (h : Triple P x Q R) (hQ : ∀ a s, Q a s → Q' a s) : Triple P x Q' R :=
  h.conseq (fun _ => id) hQ (fun _ => id)

/-- A fact about the start alone can be assumed. -/
theorem given {φ : Prop} (h : φ → Triple P x Q R) : Triple (fun s => φ ∧ P s) x Q R :=
  fun s hs => h hs.1 s hs.2

theorem fault : Triple P (Prog.fault : Prog σ α) Q R := fun _ _ => trivial

theorem bind {Q' : β → σ → Prop} {f : α → Prog σ β} (hx : Triple P x Q R)
    (hf : ∀ a, Triple (Q a) (f a) Q' R) : Triple P (x >>= f) Q' R := by
  intro s hs
  have h₁ := hx s hs
  rw [bind_run, andThen]
  cases hx' : x s with
  | fault => trivial
  | refused s' => rw [hx'] at h₁; exact h₁
  | done a s' => rw [hx'] at h₁; exact hf a s' h₁

/-- The loop rule: an invariant on the number of items processed, kept by each item. -/
theorem each {body : Nat → β → Prog σ Unit} {I : Nat → σ → Prop} {xs : List β} {i : Nat}
    (h : ∀ j (hj : j < xs.length), Triple (I (i + j)) (body (i + j) xs[j])
      (fun _ => I (i + j + 1)) R) :
    Triple (I i) (Prog.each body i xs) (fun _ => I (i + xs.length)) R := by
  induction xs generalizing i with
  | nil => exact fun s hs => hs
  | cons y ys ih =>
    have hhead : Triple (I i) (body i y) (fun _ => I (i + 1)) R := h 0 (by simp)
    have htail : Triple (I (i + 1)) (Prog.each body (i + 1) ys)
        (fun _ => I (i + 1 + ys.length)) R := by
      refine ih fun j hj => ?_
      have := h (j + 1) (by simpa using hj)
      rwa [show i + (j + 1) = i + 1 + j by omega, List.getElem_cons_succ] at this
    have hlen : i + (y :: ys).length = i + 1 + ys.length := by simp; omega
    rw [hlen]
    exact bind hhead fun _ => htail

end Triple

/-! ## Frames -/

section Frames

variable {ν : Type} {view : σ → ν} {x y : Prog σ α} {f : α → Prog σ β}

/-- The program leaves a view of the state alone when it finishes. -/
def Leaves (view : σ → ν) (x : Prog σ α) : Prop := ∀ s a s', x s = .done a s' → view s' = view s

theorem Leaves.ret (a : α) : Leaves view (Prog.ret a) := by
  intro s b s' h
  cases h
  rfl

theorem Leaves.fault : Leaves view (Prog.fault : Prog σ α) := by
  intro s a s' h
  cases h

theorem Leaves.bind (hx : Leaves view x) (hf : ∀ a, Leaves view (f a)) :
    Leaves view (x >>= f) := by
  intro s b s' h
  obtain ⟨a, s₁, hs₁, h⟩ := bind_eq_done.mp h
  exact (hf a s₁ b s' h).trans (hx s a s₁ hs₁)

theorem Leaves.ite {c : Prop} [Decidable c] (hx : c → Leaves view x) (hy : ¬ c → Leaves view y) :
    Leaves view (if c then x else y) := by
  by_cases h : c
  · rw [if_pos h]
    exact hx h
  · rw [if_neg h]
    exact hy h

theorem Leaves.each {body : Nat → β → Prog σ Unit} (h : ∀ i b, Leaves view (body i b)) (i : Nat)
    (bs : List β) : Leaves view (Prog.each body i bs) := by
  induction bs generalizing i with
  | nil => exact .ret ()
  | cons b bs ih => exact .bind (h i b) fun _ => ih (i + 1)

/-- A loop whose body does one thing to the view for each item folds it over the items. -/
theorem each_fold {body : Nat → β → Prog σ Unit} {act : ν → β → ν}
    (h : ∀ i b s s', body i b s = .done () s' → view s' = act (view s) b) {i : Nat} {bs : List β}
    {s s' : σ} (hrun : each body i bs s = .done () s') : view s' = bs.foldl act (view s) := by
  induction bs generalizing i s with
  | nil =>
    cases hrun
    rfl
  | cons b bs ih =>
    obtain ⟨_, s₁, hb, hrun⟩ := bind_eq_done.mp hrun
    rw [List.foldl_cons, ← h i b s s₁ hb]
    exact ih hrun

end Frames

end Prog
