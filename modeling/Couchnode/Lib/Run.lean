/-!
# Runs of a deterministic transition system

`step a s` is the state after action `a`, if `a` can happen in `s`. `exec` performs a list
of actions, and `Along ok` says that every action of the list meets `ok` in the state it
is performed in. An invariant has to be kept by the steps that meet `ok` only (`exec_inv`);
what a step that does not meet `ok` loses for good is there at the end of a run exactly when all
its steps meet `ok` (`exec_iff_along`).
-/

set_option autoImplicit false

namespace Run

variable {σ α : Type} (step : α → σ → Option σ)

/-- The state after a list of actions, if all of them can happen. -/
def exec : σ → List α → Option σ
  | s, [] => some s
  | s, a :: as => (step a s).bind fun s' => exec s' as

/-- Every action meets `ok` where it is performed. -/
def Along (ok : α → σ → Prop) : σ → List α → Prop
  | _, [] => True
  | s, a :: as => ok a s ∧ ∀ s', step a s = some s' → Along ok s' as

/-- `Along` on one concrete run, with a test for the condition. -/
def alongTest (test : α → σ → Bool) : σ → List α → Bool
  | _, [] => true
  | s, a :: as => test a s && (step a s).all fun s' => alongTest test s' as

variable {step}

theorem along_of_test (test : α → σ → Bool) {ok : α → σ → Prop}
    (hok : ∀ a s, test a s = true → ok a s) {s : σ} {as : List α}
    (h : alongTest step test s as = true) : Along step ok s as := by
  induction as generalizing s with
  | nil => trivial
  | cons a as ih =>
    obtain ⟨ha, has⟩ := Bool.and_eq_true_iff.mp h
    refine ⟨hok a s ha, fun s' hs => ih ?_⟩
    rw [hs] at has
    exact has

/-- What holds everywhere holds along every run. -/
theorem along_of_forall {ok : α → σ → Prop} (h : ∀ a s, ok a s) (s : σ) (as : List α) :
    Along step ok s as := by
  induction as generalizing s with
  | nil => trivial
  | cons a as ih => exact ⟨h a s, fun s' _ => ih s'⟩

theorem exec_cons {s s' : σ} {a : α} {as : List α} :
    exec step s (a :: as) = some s' ↔ ∃ s₁, step a s = some s₁ ∧ exec step s₁ as = some s' :=
  Option.bind_eq_some_iff

/-- Two conditions along one run. -/
theorem Along.and {ok ok' : α → σ → Prop} {s : σ} {as : List α} (h : Along step ok s as)
    (h' : Along step ok' s as) : Along step (fun a s => ok a s ∧ ok' a s) s as := by
  induction as generalizing s with
  | nil => trivial
  | cons a as ih => exact ⟨⟨h.1, h'.1⟩, fun s' hs => ih (h.2 s' hs) (h'.2 s' hs)⟩

/-- **The invariant rule.** What holds at the start and is kept by every step that meets
    `ok` holds at the end of every run whose steps all meet `ok`. -/
theorem exec_inv {I : σ → Prop} {ok : α → σ → Prop}
    (hstep : ∀ a s s', I s → ok a s → step a s = some s' → I s')
    {s s' : σ} {as : List α} (hs : I s) (hok : Along step ok s as)
    (h : exec step s as = some s') : I s' := by
  induction as generalizing s with
  | nil =>
    cases h
    exact hs
  | cons a as ih =>
    obtain ⟨s₁, ha, has⟩ := exec_cons.mp h
    exact ih (hstep a s s₁ hs hok.1 ha) (hok.2 s₁ ha) has

/-- The rule for an invariant every step keeps. -/
theorem exec_inv_all {I : σ → Prop} (hstep : ∀ a s s', I s → step a s = some s' → I s')
    {s s' : σ} {as : List α} (hs : I s) (h : exec step s as = some s') : I s' := by
  induction as generalizing s with
  | nil =>
    cases h
    exact hs
  | cons a as ih =>
    obtain ⟨s₁, ha, has⟩ := exec_cons.mp h
    exact ih (hstep a s s₁ hs ha) has

theorem along_cons {ok : α → σ → Prop} {s s₁ : σ} {a : α} {as : List α}
    (h : step a s = some s₁) : Along step ok s (a :: as) ↔ ok a s ∧ Along step ok s₁ as := by
  constructor
  · intro hal
    exact ⟨hal.1, hal.2 s₁ h⟩
  · intro hal
    refine ⟨hal.1, fun s₂ h₂ => ?_⟩
    cases h.symm.trans h₂
    exact hal.2

/-- **The rule for what is lost for good.** If every step keeps `J` exactly when it meets `ok`,
    and never restores it, then `J` holds after a run exactly when it held before and every step
    of the run meets `ok`. -/
theorem exec_iff_along {I J : σ → Prop} {ok : α → σ → Prop}
    (hI : ∀ a s s', I s → step a s = some s' → I s')
    (hJ : ∀ a s s', I s → step a s = some s' → (J s' ↔ J s ∧ ok a s))
    {s s' : σ} {as : List α} (hs : I s) (h : exec step s as = some s') :
    J s' ↔ J s ∧ Along step ok s as := by
  induction as generalizing s with
  | nil =>
    cases h
    exact (and_iff_left trivial).symm
  | cons a as ih =>
    obtain ⟨s₁, ha, has⟩ := exec_cons.mp h
    rw [ih (hI a s s₁ hs ha) has, hJ a s s₁ hs ha, along_cons ha, and_assoc]

end Run
