import Mathlib

/-!
Runs of a partial step function. A step that is undefined (`none`) stops the
run; a run is guarded by a condition when every step it takes meets the
condition in the state it starts from.
-/

namespace RunLib

universe u v w
variable {σ : Type u} {α : Type v} {τ : Type u}

/-- Every step of the run from `s` along `as` meets `P` in the state before it. -/
def Guarded (step : σ → α → Option σ) (P : σ → α → Prop) : σ → List α → Prop
  | _, [] => True
  | s, a :: as => P s a ∧ ∀ s', step s a = some s' → Guarded step P s' as

instance Guarded.decidable (step : σ → α → Option σ) (P : σ → α → Prop)
    [∀ s a, Decidable (P s a)] : (s : σ) → (as : List α) → Decidable (Guarded step P s as)
  | _, [] => .isTrue trivial
  | s, a :: as =>
    match h : step s a with
    | none => decidable_of_iff (P s a) (by simp [Guarded, h])
    | some s' =>
      have := Guarded.decidable step P s' as
      decidable_of_iff (P s a ∧ Guarded step P s' as) (by simp [Guarded, h])

/-- A total step function that keeps `R` under the guard keeps it along every
guarded run, and the run does not get stuck. -/
theorem Guarded.refines {step : σ → α → Option σ} {P : σ → α → Prop} {astep : τ → α → τ}
    {R : σ → τ → Prop}
    (hstep : ∀ s t a, R s t → P s a → ∃ s', step s a = some s' ∧ R s' (astep t a)) {s : σ} {t : τ}
    {as : List α} (hr : R s t) (hg : Guarded step P s as) :
    ∃ s', as.foldlM step s = some s' ∧ R s' (as.foldl astep t) := by
  induction as generalizing s t with
  | nil => exact ⟨s, rfl, hr⟩
  | cons a as ih =>
    obtain ⟨hp, hrest⟩ := hg
    obtain ⟨s', hs, hr'⟩ := hstep s t a hr hp
    obtain ⟨s'', hrun, hr''⟩ := ih hr' (hrest s' hs)
    refine ⟨s'', ?_, hr''⟩
    simp only [List.foldlM_cons, hs]
    exact hrun

/-- An invariant that the step keeps under the guard holds after every guarded
run. -/
theorem Guarded.invariant {step : σ → α → Option σ} {P : σ → α → Prop} {I : σ → Prop}
    (hstep : ∀ s a, I s → P s a → ∃ s', step s a = some s' ∧ I s') {s : σ} {as : List α} (hi : I s)
    (hg : Guarded step P s as) : ∃ s', as.foldlM step s = some s' ∧ I s' := by
  exact @Guarded.refines σ α PUnit step P (fun _ _ => .unit) (fun s _ => I s)
    (fun s _ => hstep s) s .unit as hi hg

/-- An invariant that every step keeps holds at the end of every run. -/
theorem invariant_of_run {step : σ → α → Option σ} {I : σ → Prop}
    (hstep : ∀ s a s', I s → step s a = some s' → I s') {s s' : σ} {as : List α} (hi : I s)
    (hrun : as.foldlM step s = some s') : I s' := by
  induction as generalizing s with
  | nil =>
    cases hrun
    exact hi
  | cons a as ih =>
    rw [List.foldlM_cons] at hrun
    obtain ⟨s₁, hs, hrest⟩ := Option.bind_eq_some_iff.mp hrun
    exact ih (hstep s a s₁ hi hs) hrest

end RunLib
