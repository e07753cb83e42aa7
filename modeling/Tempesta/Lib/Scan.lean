import Mathlib

/-!
Resumable scanners. A scanner reads one symbol after the other until it has a
verdict; input that arrives in pieces is scanned piece by piece, the state kept in
between. A scanner that reads several symbols of a piece at once is compared with
the one that reads single symbols.
-/

namespace ScanLib

universe u v w
variable {σ : Type u} {ρ : Type v} {α : Type w}

/-- The state after the input, or the verdict. -/
def scan (step : σ → α → σ ⊕ ρ) : σ → List α → σ ⊕ ρ
  | s, [] => .inl s
  | s, c :: l =>
    match step s c with
    | .inl s' => scan step s' l
    | .inr r => .inr r

/-- The scanner `f` on one piece after the other. -/
def feed (f : σ → List α → σ ⊕ ρ) : σ → List (List α) → σ ⊕ ρ
  | s, [] => .inl s
  | s, d :: ds =>
    match f s d with
    | .inl s' => feed f s' ds
    | .inr r => .inr r

variable {I : σ → Prop}

section scan
variable {step : σ → α → σ ⊕ ρ} {s s' : σ} {r : ρ} {c : α} {l l' : List α}

lemma scan_next (h : step s c = .inl s') : scan step s (c :: l) = scan step s' l := by
  rw [scan, h]

lemma scan_stop (h : step s c = .inr r) : scan step s (c :: l) = .inr r := by
  rw [scan, h]

lemma scan_append :
    scan step s (l ++ l') =
      match scan step s l with
      | .inl s' => scan step s' l'
      | .inr r => .inr r := by
  induction l generalizing s with
  | nil => rfl
  | cons c l ih =>
    rw [List.cons_append]
    cases hs : step s c with
    | inl s' => rw [scan_next hs, scan_next hs, ih]
    | inr r => rw [scan_stop hs, scan_stop hs]

lemma scan_append_of_inl (h : scan step s l = .inl s') :
    scan step s (l ++ l') = scan step s' l' := by
  rw [scan_append, h]

lemma scan_append_of_inr (h : scan step s l = .inr r) : scan step s (l ++ l') = .inr r := by
  rw [scan_append, h]

/-- A property of the states that the symbols keep holds after every input. -/
theorem scan_invariant (hstep : ∀ s c s', I s → step s c = .inl s' → I s') (hi : I s)
    (h : scan step s l = .inl s') : I s' := by
  induction l generalizing s with
  | nil =>
    cases h
    exact hi
  | cons c l ih =>
    cases hs : step s c with
    | inl s₁ =>
      rw [scan_next hs] at h
      exact ih (hstep s c s₁ hi hs) h
    | inr r =>
      rw [scan_stop hs] at h
      cases h

end scan

variable {f : σ → List α → σ ⊕ ρ} {ds : List (List α)}

/-- If `f` reads a piece as the symbols do, the cut of the input into pieces has no
influence. -/
theorem feed_eq_scan {step : σ → α → σ ⊕ ρ} (hstep : ∀ s c s', I s → step s c = .inl s' → I s')
    (hf : ∀ s d, I s → d ≠ [] → f s d = scan step s d) {s : σ} (hi : I s) (hds : ∀ d ∈ ds, d ≠ []) :
    feed f s ds = scan step s ds.flatten := by
  induction ds generalizing s with
  | nil => rfl
  | cons d ds ih =>
    obtain ⟨hd, hds⟩ := List.forall_mem_cons.mp hds
    rw [feed, List.flatten_cons, scan_append, hf s d hi hd]
    cases hs : scan step s d with
    | inl s' => exact ih (scan_invariant hstep hi hs) hds
    | inr r => rfl

/-- Symbol by symbol, empty pieces do not count either. -/
theorem feed_scan (step : σ → α → σ ⊕ ρ) (s : σ) (ds : List (List α)) :
    feed (scan step) s ds = scan step s ds.flatten := by
  induction ds generalizing s with
  | nil => rfl
  | cons d ds ih =>
    rw [feed, List.flatten_cons, scan_append]
    cases hs : scan step s d with
    | inl s' => exact ih s'
    | inr r => rfl

/-- Pieces behind a first one that leads into the symbols -/
theorem feed_cons_of_scan {step : σ → α → σ ⊕ ρ}
    (hstep : ∀ s c s', I s → step s c = .inl s' → I s')
    (hf : ∀ s d, I s → d ≠ [] → f s d = scan step s d) {s s₀ : σ} {d l : List α}
    (hi : ∀ s₁, scan step s₀ l = .inl s₁ → I s₁) (hds : ∀ d ∈ ds, d ≠ [])
    (h : f s d = scan step s₀ l) : feed f s (d :: ds) = scan step s₀ (l ++ ds.flatten) := by
  rw [feed, h]
  cases hs : scan step s₀ l with
  | inr r => rw [scan_append_of_inr hs]
  | inl s₁ =>
    rw [scan_append_of_inl hs]
    exact feed_eq_scan hstep hf (hi s₁ hs) hds

lemma flatten_singletons (l : List α) : (l.map fun c => [c]).flatten = l := by
  induction l with
  | nil => rfl
  | cons c l ih => rw [List.map_cons, List.flatten_cons, ih, List.singleton_append]

/-- Pieces of one symbol -/
theorem feed_singletons {step : σ → α → σ ⊕ ρ} (h : ∀ s c, f s [c] = step s c) (s : σ)
    (l : List α) : feed f s (l.map fun c => [c]) = scan step s l := by
  induction l generalizing s with
  | nil => rfl
  | cons c l ih =>
    rw [List.map_cons, feed, h]
    cases hs : step s c with
    | inl s' => rw [scan_next hs, ← ih s']
    | inr r => rw [scan_stop hs]

lemma scan_singleton {step : σ → α → σ ⊕ ρ} (s : σ) (c : α) : scan step s [c] = step s c := by
  cases h : step s c with
  | inl s' => exact scan_next h
  | inr r => exact scan_stop h

end ScanLib
