import Mathlib

/-!
Weights under keys in any order, read by a cursor that skips the cells without
weight. While a cursor has met only keys below a bound, it has read no more than
the weight in front of the first key that is not; it has read all of that once it
stands at such a key.
-/

namespace StreamLib

open Finset

/-- `len` cells with a key and a weight. -/
structure Stream where
  len : Nat
  key : Nat → Nat
  wt : Nat → Nat

/-- The first cell with a weight among the `n` cells from `i` on, `i + n` if there
is none. -/
def seek (wt : Nat → Nat) : Nat → Nat → Nat
  | 0, i => i
  | n + 1, i => if wt i = 0 then seek wt n (i + 1) else i

lemma seek_spec (wt : Nat → Nat) (n i : Nat) :
    i ≤ seek wt n i ∧ seek wt n i ≤ i + n ∧ (∀ k, i ≤ k → k < seek wt n i → wt k = 0) ∧
      (seek wt n i < i + n → wt (seek wt n i) ≠ 0) := by
  induction n generalizing i with
  | zero => exact ⟨Nat.le_refl i, Nat.le_refl i, fun k _ _ => by simp only [seek] at *; omega,
      fun h => absurd h (Nat.lt_irrefl i)⟩
  | succ n ih =>
    rw [seek]
    split
    next hzero =>
      obtain ⟨hle, hbound, hskip, hfound⟩ := ih (i + 1)
      refine ⟨by omega, by omega, ?_, fun h => hfound (by omega)⟩
      intro k hk hlt
      by_cases hki : k = i
      · rw [hki, hzero]
      · exact hskip k (by omega) hlt
    next hne =>
      exact ⟨Nat.le_refl i, by omega, fun k _ _ => by omega, fun _ => hne⟩

namespace Stream

/-- The weight in front of the first cell with a weight and a key of at least `x`. -/
def front (s : Stream) (x : Nat) : Nat :=
  ∑ k ∈ Finset.range s.len, if ∀ j ≤ k, s.wt j ≠ 0 → s.key j < x then s.wt k else 0

/-- The weight of the cells before `pos`. -/
def before (s : Stream) (pos : Nat) : Nat := ∑ k ∈ Finset.range pos, s.wt k

/-- A cursor at `pos` has met only keys below `x`. -/
structure Within (s : Stream) (x pos : Nat) : Prop where
  le : pos ≤ s.len
  below : ∀ k < pos, s.wt k ≠ 0 → s.key k < x

variable {s : Stream} {x pos : Nat}

lemma Within.front_split (h : s.Within x pos) :
    s.front x = s.before pos + ∑ k ∈ range (s.len - pos),
      if ∀ j ≤ pos + k, s.wt j ≠ 0 → s.key j < x then s.wt (pos + k) else 0 := by
  obtain ⟨d, hd⟩ := Nat.exists_eq_add_of_le h.le
  rw [front, before, hd, sum_range_add, Nat.add_sub_cancel_left]
  refine congrArg (· + _) (sum_congr rfl (fun k hk => if_pos ?_))
  intro j hj hne
  exact h.below j (Nat.lt_of_le_of_lt hj (Finset.mem_range.mp hk)) hne

lemma Within.before_le (h : s.Within x pos) : s.before pos ≤ s.front x := by
  rw [h.front_split]
  exact Nat.le_add_right _ _

/-- A cursor that stands at the first key not below `x` has read what is in front of it. -/
theorem Within.before_eq (h : s.Within x pos)
    (hhead : pos < s.len → s.wt pos ≠ 0 ∧ x ≤ s.key pos) : s.before pos = s.front x := by
  have hrest : ∀ k ∈ range (s.len - pos),
      (if ∀ j ≤ pos + k, s.wt j ≠ 0 → s.key j < x then s.wt (pos + k) else 0) = 0 := by
    intro k hk
    have hk := Finset.mem_range.mp hk
    obtain ⟨hne, hge⟩ := hhead (by omega)
    exact if_neg (fun hall => Nat.not_lt_of_le hge (hall pos (Nat.le_add_right pos k) hne))
  rw [h.front_split, sum_eq_zero hrest, Nat.add_zero]

/-- The cell a cursor moves on to from `pos`. -/
def next (s : Stream) (pos : Nat) : Nat := seek s.wt (s.len - (pos + 1)) (pos + 1)

lemma lt_next (s : Stream) (pos : Nat) : pos < s.next pos :=
  (seek_spec s.wt (s.len - (pos + 1)) (pos + 1)).1

lemma Within.advance (h : s.Within x pos) (hlt : pos < s.len) (hkey : s.key pos < x) :
    s.Within x (s.next pos) := by
  obtain ⟨_, hbound, hskip, _⟩ := seek_spec s.wt (s.len - (pos + 1)) (pos + 1)
  refine ⟨by rw [next]; omega, ?_⟩
  intro k hk hne
  obtain hkp | rfl | hkp := Nat.lt_trichotomy k pos
  · exact h.below k hkp hne
  · exact hkey
  · exact absurd (hskip k hkp hk) hne

lemma before_next (s : Stream) (pos : Nat) : s.before (s.next pos) = s.before pos + s.wt pos := by
  obtain ⟨hle, _, hskip, _⟩ := seek_spec s.wt (s.len - (pos + 1)) (pos + 1)
  obtain ⟨d, hd⟩ := Nat.exists_eq_add_of_le hle
  have hzero : ∀ k ∈ range d, s.wt (pos + 1 + k) = 0 := by
    intro k hk
    have := Finset.mem_range.mp hk
    exact hskip _ (by omega) (by omega)
  rw [before, next, hd, sum_range_add, sum_eq_zero hzero, sum_range_succ,
    before, Nat.add_zero]

lemma wt_next_ne_zero (hlt : s.next pos < s.len) (hpos : pos < s.len) :
    s.wt (s.next pos) ≠ 0 := by
  obtain ⟨_, _, _, hfound⟩ := seek_spec s.wt (s.len - (pos + 1)) (pos + 1)
  rw [next] at hlt ⊢
  exact hfound (by omega)

end Stream

end StreamLib
