import Mathlib

/-!
Loops that rewrite a row of cells in place. A cell is written from cells that no
earlier step has written, so the loop computes what the same assignments made
all at once would, and sums over the cells follow.
-/

namespace SweepLib

open Function Finset

universe u
variable {α : Type u}

/-- `for (i = 0; i < n; ++i) f[i] = g(f, i)`. -/
def sweep (g : (Nat → α) → Nat → α) (n : Nat) (f : Nat → α) : Nat → α :=
  (List.range n).foldl (fun f i => Function.update f i (g f i)) f

variable {n k : Nat}

lemma sweep_succ {g : (Nat → α) → Nat → α} {f : Nat → α} :
    sweep g (n + 1) f = Function.update (sweep g n f) n (g (sweep g n f) n) := by
  simp only [sweep, List.range_succ, List.foldl_append, List.foldl_cons, List.foldl_nil]

/-- A step that reads no cell below its own sees the row as it was. -/
theorem sweep_apply {g : (Nat → α) → Nat → α}
    (hg : ∀ f f' i, (∀ j, i ≤ j → f j = f' j) → g f i = g f' i) (n : Nat) (f : Nat → α) (j : Nat) :
    sweep g n f j = if j < n then g f j else f j := by
  induction n generalizing j with
  | zero => rfl
  | succ n ih =>
    rw [sweep_succ]
    by_cases hj : j = n
    · subst hj
      rw [update_self, if_pos (Nat.lt_succ_self j)]
      apply hg
      intro k hk
      rw [ih k, if_neg (by omega)]
    · rw [update_of_ne hj, ih j]
      by_cases hlt : j < n
      · rw [if_pos hlt, if_pos (by omega)]
      · rw [if_neg hlt, if_neg (by omega)]

/-- A row summed in groups of `u` cells. -/
theorem sum_groups (f : Nat → Nat) (u p : Nat) :
    ∑ i ∈ Finset.range p, ∑ b ∈ Finset.range u, f (u * i + b)
      = ∑ j ∈ Finset.range (u * p), f j := by
  induction p with
  | zero => rfl
  | succ p ih => rw [sum_range_succ, ih, Nat.mul_succ, sum_range_add]

lemma sum_update (f : Nat → Nat) (hk : k < n) (x : Nat) :
    ∑ j ∈ Finset.range n, Function.update f k x j + f k = ∑ j ∈ Finset.range n, f j + x := by
  induction n with
  | zero => exact absurd hk (Nat.not_lt_zero k)
  | succ n ih =>
    rw [sum_range_succ, sum_range_succ]
    by_cases hkn : k < n
    · rw [update_of_ne (show n ≠ k by omega)]
      have := ih hkn
      omega
    · obtain rfl : k = n := by omega
      have hrest : ∑ j ∈ range k, update f k x j
          = ∑ j ∈ range k, f j := by
        refine sum_congr rfl (fun j hj => update_of_ne ?_ x f)
        exact (Finset.mem_range.mp hj).ne
      rw [hrest, update_self]
      omega

lemma le_sum (f : Nat → Nat) (hk : k < n) : f k ≤ ∑ j ∈ Finset.range n, f j :=
  single_le_sum (fun _ _ => Nat.zero_le _) (Finset.mem_range.mpr hk)

end SweepLib
