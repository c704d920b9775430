import Couchnode.Lib.Run

/-!
# Runs, their history, and refinement

Two more rules for the runs of `Lib.Run`. `exec_history` is the invariant rule for properties that
speak of the actions that led to a state. `exec_refines` is refinement with stuttering: if every
step of one system is matched by a few steps of another, so is every run, and the two runs show
the same in the same order, where `view` and `view'` are what their actions show.
-/

set_option autoImplicit false

namespace Run

variable {σ τ α β γ : Type} {step : α → σ → Option σ} {step' : β → τ → Option τ}

theorem exec_append (s : σ) (as as' : List α) :
    exec step s (as ++ as') = (exec step s as).bind fun s' => exec step s' as' := by
  induction as generalizing s with
  | nil => rfl
  | cons a as ih =>
    simp only [List.cons_append, exec]
    cases step a s with
    | none => rfl
    | some s' => exact ih s'

/-- **The rule for invariants that know the past.** -/
theorem exec_history {I : List α → σ → Prop}
    (hstep : ∀ as a s s', I as s → step a s = some s' → I (as ++ [a]) s')
    {s s' : σ} {as : List α} (hs : I [] s) (h : exec step s as = some s') : I as s' := by
  -- from any past, by induction on what is still to come
  suffices hgen : ∀ (past : List α) (s : σ), I past s → exec step s as = some s' →
      I (past ++ as) s' from hgen [] s hs h
  clear hs h
  induction as with
  | nil =>
    intro past s hs h
    cases h
    rwa [List.append_nil]
  | cons a as ih =>
    intro past s hs h
    obtain ⟨s₁, ha, has⟩ := exec_cons.mp h
    have hnext := ih (past ++ [a]) s₁ (hstep past a s s₁ hs ha) has
    rwa [List.append_assoc] at hnext

/-- **Refinement.** -/
theorem exec_refines {R : σ → τ → Prop} {view : α → Option γ} {view' : β → Option γ}
    (hstep : ∀ a s s' t, R s t → step a s = some s' →
      ∃ bs t', exec step' t bs = some t' ∧ R s' t' ∧
        bs.filterMap view' = (view a).toList)
    {s s' : σ} {t : τ} {as : List α} (hst : R s t) (h : exec step s as = some s') :
    ∃ bs t', exec step' t bs = some t' ∧ R s' t' ∧ bs.filterMap view' = as.filterMap view := by
  induction as generalizing s t with
  | nil =>
    cases h
    exact ⟨[], t, rfl, hst, rfl⟩
  | cons a as ih =>
    obtain ⟨s₁, ha, has⟩ := exec_cons.mp h
    obtain ⟨bs, t₁, hbs, hst₁, hview⟩ := hstep a s s₁ t hst ha
    obtain ⟨bs', t', hbs', hst', hview'⟩ := ih hst₁ has
    refine ⟨bs ++ bs', t', ?_, hst', ?_⟩
    · rw [exec_append, hbs]
      exact hbs'
    · rw [List.filterMap_append, hview, hview', List.filterMap_cons]
      cases view a <;> rfl

end Run
