import Mathlib

/-!
Words that delimit themselves. A stream of whole words with one unfinished word at
its end can be cut in one way only.
-/

namespace PrefixLib

open List

universe u
variable {α : Type u}

/-- No whole word begins with another, and no unfinished word begins with a whole one. -/
structure PrefixCode (Whole Part : List α → Prop) : Prop where
  whole : ∀ {a b r s}, Whole a → Whole b → a ++ r = b ++ s → a = b
  part : ∀ {a b r}, Part a → Whole b → a ≠ b ++ r

variable {Whole Part : List α → Prop}

lemma PrefixCode.unique (hc : PrefixCode Whole Part) {as bs : List (List α)} {a b : List α}
    (has : ∀ x ∈ as, Whole x) (hbs : ∀ x ∈ bs, Whole x) (ha : Part a) (hb : Part b)
    (h : as.flatten ++ a = bs.flatten ++ b) : as = bs ∧ a = b := by
  induction as generalizing bs with
  | nil =>
    cases bs with
    | nil => exact ⟨rfl, h⟩
    | cons y bs =>
      rw [flatten_nil, nil_append, flatten_cons, append_assoc] at h
      exact absurd h (hc.part ha (hbs y mem_cons_self))
  | cons x as ih =>
    cases bs with
    | nil =>
      rw [flatten_nil, nil_append, flatten_cons, append_assoc] at h
      exact absurd h.symm (hc.part hb (has x mem_cons_self))
    | cons y bs =>
      rw [flatten_cons, flatten_cons, append_assoc, append_assoc] at h
      have hxy := hc.whole (has x mem_cons_self) (hbs y mem_cons_self) h
      rw [hxy] at h
      obtain ⟨rfl, rfl⟩ := ih (fun z hz => has z (mem_cons_of_mem x hz))
        (fun z hz => hbs z (mem_cons_of_mem y hz)) (append_cancel_left h)
      exact ⟨congrArg (· :: as) hxy, rfl⟩

end PrefixLib
