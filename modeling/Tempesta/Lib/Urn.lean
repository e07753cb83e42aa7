import Mathlib

/-!
Drawing without replacement. An urn holds a number of balls of every kind; a draw takes
out one ball, and an urn that becomes empty is filled again. Whatever is drawn, as many
draws as the full urn has balls give every kind as often as it is in the full urn.
-/

namespace UrnLib

open Function Finset

universe u
variable {ι : Type u} [Fintype ι] [DecidableEq ι]

/-- What is left behind a draw of the kind `i` -/
def draw (full left : ι → Nat) (i : ι) : ι → Nat :=
  let rest := Function.update left i (left i - 1)
  if ∑ j, rest j = 0 then full else rest

/-- The draws `is` lead from one content to another. -/
inductive Draws (full : ι → Nat) : (ι → Nat) → List ι → (ι → Nat) → Prop
  | nil {left} : Draws full left [] left
  | cons {left left' i is} : 0 < left i → Draws full (draw full left i) is left' →
      Draws full left (i :: is) left'

section draw
variable {full left left' : ι → Nat} {i : ι} {is is' : List ι}

lemma sum_update_pred (h : 0 < left i) :
    ∑ j, Function.update left i (left i - 1) j = ∑ j, left j - 1 := by
  have hupdate := sum_update_of_mem (mem_univ i) left (left i - 1)
  have hsplit := add_sum_erase univ left (mem_univ i)
  rw [sdiff_singleton_eq_erase] at hupdate
  omega

lemma draw_of_lt (h : 0 < left i) (hsum : 1 < ∑ j, left j) :
    draw full left i = Function.update left i (left i - 1) := by
  have hrest := sum_update_pred h
  exact if_neg (by omega)

lemma draw_of_one (h : 0 < left i) (hsum : ∑ j, left j = 1) : draw full left i = full := by
  have hrest := sum_update_pred h
  exact if_pos (by omega)

/-- The last ball -/
theorem eq_of_one (h : 0 < left i) (hsum : ∑ j, left j = 1) (j : ι) :
    left j = if i = j then 1 else 0 := by
  have hrest := sum_update_pred h
  have hzero : update left i (left i - 1) j = 0 :=
    Finset.sum_eq_zero_iff.mp (by omega : ∑ j, update left i (left i - 1) j = 0) j
      (mem_univ j)
  by_cases hij : i = j
  · subst hij
    rw [update_self] at hzero
    rw [if_pos rfl]
    omega
  · rw [update_of_ne (Ne.symm hij)] at hzero
    rw [if_neg hij, hzero]

omit [Fintype ι] in
lemma count_cons_update (h : 0 < left i) {j : ι}
    (hcount : is.count j = Function.update left i (left i - 1) j) :
    (i :: is).count j = left j := by
  rw [List.count_cons, hcount]
  by_cases hij : i = j
  · subst hij
    rw [update_self, beq_self_eq_true, if_pos rfl]
    omega
  · rw [update_of_ne (Ne.symm hij), beq_false_of_ne hij, if_neg Bool.false_ne_true]
    omega

/-- All balls drawn: each kind was drawn as often as it was in the urn, and the urn is full. -/
theorem Draws.emptied (h : Draws full left is left') (hne : is ≠ [])
    (hlen : is.length = ∑ j, left j) : left' = full ∧ ∀ j, is.count j = left j := by
  induction h with
  | nil => exact absurd rfl hne
  | @cons left left' i is hi hrest ih =>
    rw [List.length_cons] at hlen
    by_cases his : is = []
    · subst his
      cases hrest
      refine ⟨draw_of_one hi hlen.symm, ?_⟩
      intro j
      rw [List.count_singleton, eq_of_one hi hlen.symm j]
      by_cases hij : i = j
      · rw [hij, beq_self_eq_true, if_pos rfl, if_pos rfl]
      · rw [beq_false_of_ne hij, if_neg Bool.false_ne_true, if_neg hij]
    · have hpos := List.length_pos_iff.mpr his
      rw [draw_of_lt hi (by omega)] at ih
      have hsum := sum_update_pred hi
      obtain ⟨hleft, hcount⟩ := ih his (by omega)
      exact ⟨hleft, fun j => count_cons_update hi (hcount j)⟩

lemma Draws.append (h : Draws full left (is ++ is') left') :
    ∃ mid, Draws full left is mid ∧ Draws full mid is' left' := by
  induction is generalizing left with
  | nil => exact ⟨left, .nil, h⟩
  | cons i is ih =>
    cases h with
    | cons hi hrest =>
      obtain ⟨mid, hfirst, hsecond⟩ := ih hrest
      exact ⟨mid, .cons hi hfirst, hsecond⟩

/-- Blocks of draws from the full urn lead to the full urn. -/
theorem Draws.blocks (hfull : 0 < ∑ j, full j) {b : Nat} (h : Draws full full is left')
    (hlen : is.length = b * ∑ j, full j) : left' = full := by
  induction b generalizing is with
  | zero =>
    rw [Nat.zero_mul] at hlen
    rw [List.eq_nil_of_length_eq_zero hlen] at h
    cases h
    rfl
  | succ b ih =>
    rw [Nat.succ_mul] at hlen
    rw [← List.take_append_drop (∑ j, full j) is] at h
    obtain ⟨mid, hfirst, hrest⟩ := h.append
    have htake : (is.take (∑ j, full j)).length = ∑ j, full j := by
      rw [List.length_take]
      omega
    have hne : is.take (∑ j, full j) ≠ [] := by
      rw [← List.length_pos_iff]
      omega
    obtain ⟨rfl, -⟩ := hfirst.emptied hne htake
    refine ih hrest ?_
    rw [List.length_drop]
    omega

end draw

end UrnLib
