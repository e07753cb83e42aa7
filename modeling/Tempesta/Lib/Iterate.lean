import Mathlib

/-!
Loops as repeated steps. A step yields the next state or ends the loop with a
result. The executable form takes a number of steps; the relation `Ends` does
not, and a measure that every step lowers connects the two.
-/

namespace IterLib

universe u v
variable {σ : Type u} {ρ : Type v}

/-- At most `n` steps. -/
def iterate (step : σ → σ ⊕ ρ) : Nat → σ → Option ρ
  | 0, _ => none
  | n + 1, s =>
    match step s with
    | .inl s' => iterate step n s'
    | .inr r => some r

/-- The loop entered in `s` ends with `r`. -/
inductive Ends (step : σ → σ ⊕ ρ) : σ → ρ → Prop
  | stop {s r} : step s = .inr r → Ends step s r
  | next {s s' r} : step s = .inl s' → Ends step s' r → Ends step s r

variable {step : σ → σ ⊕ ρ} {s : σ} {r : ρ}

lemma Ends.unique {r' : ρ} (h : Ends step s r) (h' : Ends step s r') : r = r' := by
  induction h with
  | stop hs =>
    cases h' with
    | stop hs' => exact Sum.inr.inj (hs.symm.trans hs')
    | next hs' _ => cases hs.symm.trans hs'
  | next hs _ ih =>
    cases h' with
    | stop hs' => cases hs.symm.trans hs'
    | next hs' hrest => exact ih (Sum.inl.inj (hs.symm.trans hs') ▸ hrest)

lemma Ends.next_iff {s' : σ} (hs : step s = .inl s') : Ends step s r ↔ Ends step s' r := by
  constructor
  · intro h
    cases h with
    | stop hs' => cases hs.symm.trans hs'
    | next hs' hrest => exact Sum.inl.inj (hs.symm.trans hs') ▸ hrest
  · exact .next hs

lemma Ends.of_reach {s' : σ} (h : Relation.ReflTransGen (fun a b => step a = .inl b) s s')
    (hr : Ends step s' r) : Ends step s r := by
  induction h with
  | refl => exact hr
  | tail _ hs ih => exact ih (.next hs hr)

lemma Ends.of_iterate {n : Nat} (h : iterate step n s = some r) : Ends step s r := by
  induction n generalizing s with
  | zero => cases h
  | succ n ih =>
    rw [iterate] at h
    split at h
    · exact .next ‹_› (ih h)
    · cases h
      exact .stop ‹_›

/-- The last state of the loop -/
theorem Ends.reach (h : Ends step s r) :
    ∃ s', Relation.ReflTransGen (fun a b => step a = .inl b) s s' ∧ step s' = .inr r := by
  induction h with
  | stop hs => exact ⟨_, .refl, hs⟩
  | next hs _ ih =>
    obtain ⟨s', hreach, hstop⟩ := ih
    exact ⟨s', .head hs hreach, hstop⟩

variable {I : σ → Prop}

/-- If every step keeps `I` and lowers `μ`, the loop ends, and any number of
steps above the measure is enough. -/
theorem iterate_ends {μ : σ → Nat} (hstep : ∀ s s', I s → step s = .inl s' → I s' ∧ μ s' < μ s)
    {n : Nat} (hi : I s) (hn : μ s < n) : ∃ r, iterate step n s = some r ∧ Ends step s r := by
  induction n generalizing s with
  | zero => exact absurd hn (Nat.not_lt_zero _)
  | succ n ih =>
    simp only [iterate]
    cases hs : step s with
    | inr r => exact ⟨r, rfl, .stop hs⟩
    | inl s' =>
      obtain ⟨hi', hlt⟩ := hstep s s' hi hs
      obtain ⟨r, hr, hends⟩ := ih hi' (by omega)
      exact ⟨r, hr, .next hs hends⟩

/-- An invariant of the steps that each way to end turns into a property of the
result. -/
theorem Ends.invariant {Q : ρ → Prop} (hnext : ∀ s s', I s → step s = .inl s' → I s')
    (hstop : ∀ s r, I s → step s = .inr r → Q r) (h : Ends step s r) (hi : I s) : Q r := by
  induction h with
  | stop hs => exact hstop _ _ hi hs
  | next hs _ ih => exact ih (hnext _ _ hi hs)

/-- A loop whose steps follow those of another one ends when that one does. -/
theorem iterate_simulate {τ : Type*} {ρ' : Type*} {step' : τ → τ ⊕ ρ'} {f : σ → τ} {g : ρ → ρ'}
    (hkeep : ∀ s s', I s → step s = .inl s' → I s')
    (hstep : ∀ s, I s → step' (f s) = (step s).map f g) {n : Nat} (hi : I s)
    (h : iterate step n s = some r) : iterate step' n (f s) = some (g r) := by
  induction n generalizing s with
  | zero => cases h
  | succ n ih =>
    simp only [iterate, hstep s hi] at h ⊢
    cases hs : step s with
    | inl s' =>
      rw [hs] at h
      exact ih (hkeep s s' hi hs) h
    | inr r' =>
      rw [hs] at h
      exact congrArg (fun r => some (g r)) (Option.some.inj h)

end IterLib
