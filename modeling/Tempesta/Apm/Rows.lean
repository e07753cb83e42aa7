import Tempesta.Apm

/-!
The counters of one range under the three ways to rebuild them. Each of them
rewrites the row in place and keeps its sum; only the general case of an
extension needs the sums it takes to fit in 32 bits.
-/

namespace Tempesta.Apm

open SweepLib Function Finset

def rowSum (row : Nat → Nat) : Nat := ∑ b ∈ Finset.range 16, row b

variable {b u p i n units shift j : Nat} {row : Nat → Nat}

lemma le_rowSum (row : Nat → Nat) (hb : b < 16) : row b ≤ rowSum row :=
  le_sum row hb

lemma rowSum_groups (row : Nat → Nat) (h : u * p = 16) :
    rowSum row = ∑ i ∈ Finset.range p, ∑ b ∈ Finset.range u, row (u * i + b) := by
  rw [sum_groups, h, rowSum]

lemma rowSum_halves (row : Nat → Nat) :
    rowSum row = ∑ b ∈ Finset.range 8, row b + ∑ b ∈ Finset.range 8, row (8 + b) :=
  sum_range_add row 8 8

lemma rowSum_pairs : rowSum row = ∑ i ∈ Finset.range 8, (row (2 * i) + row (2 * i + 1)) := by
  rw [rowSum_groups row (show 2 * 8 = 16 from rfl)]
  refine sum_congr rfl (fun i _ => ?_)
  rw [sum_range_succ, sum_range_one, Nat.add_zero]

lemma group_le_rowSum (row : Nat → Nat) (h : u * p = 16) (hi : i < p) :
    ∑ b ∈ Finset.range u, row (u * i + b) ≤ rowSum row := by
  rw [rowSum_groups row h]
  exact le_sum (fun i => ∑ b ∈ range u, row (u * i + b)) hi

lemma rowSum_bump (row : Nat → Nat) (hb : b < 16) (h : rowSum row + 1 < 2 ^ 64) :
    rowSum (Function.update row b (ulong (row b + 1))) = rowSum row + 1 := by
  have hle := le_rowSum row hb
  have hsum := sum_update row hb (row b + 1)
  rw [ulong_of_lt (by omega)]
  simp only [rowSum] at hsum ⊢
  omega

theorem growRow_apply :
    growRow row j = if j < 8 then ulong (row (2 * j) + row (2 * j + 1)) else row j := by
  apply sweep_apply
  intro f f' i h
  rw [h (2 * i) (by omega), h (2 * i + 1) (by omega)]

/-- Growing frees the right half, where `c` hits are put in each bucket. -/
theorem rowSum_grow (row : Nat → Nat) (c : Nat) (h : rowSum row < 2 ^ 64) :
    rowSum (fun b => if 8 ≤ b ∧ b < 16 then c else growRow row b) = rowSum row + 8 * c := by
  have hleft : ∀ b ∈ range 8,
      (if 8 ≤ b ∧ b < 16 then c else growRow row b) = row (2 * b) + row (2 * b + 1) := by
    intro b hb
    have hb := Finset.mem_range.mp hb
    have hpair := le_sum (fun i => row (2 * i) + row (2 * i + 1)) hb
    rw [← rowSum_pairs] at hpair
    rw [if_neg (by omega), growRow_apply, if_pos hb, ulong_of_lt (by omega)]
  have hright : ∀ b ∈ range 8,
      (if 8 ≤ 8 + b ∧ 8 + b < 16 then c else growRow row (8 + b)) = c := by
    intro b hb
    have hb := Finset.mem_range.mp hb
    rw [if_pos (by omega)]
  rw [rowSum_halves, sum_congr rfl hleft, sum_const_nat hright, ← rowSum_pairs,
    card_range]

theorem gatherLeft_eq (row : Nat → Nat) (h : rowSum row < 2 ^ 64) :
    gatherLeft row = Function.update row 0 (∑ b ∈ Finset.range 8, row b) := by
  have hgen : ∀ n ≤ 7, (List.range' 1 n).foldl
      (fun row i => update row 0 (ulong (row 0 + row i))) row
        = update row 0 (∑ b ∈ range (n + 1), row b) := by
    intro n hn
    induction n with
    | zero => rw [sum_range_one, update_eq_self]; rfl
    | succ n ih =>
      have hle : ∑ b ∈ range (n + 1 + 1), row b ≤ rowSum row := by
        refine sum_le_sum_of_subset ?_
        exact Finset.range_subset_range.mpr (by omega)
      rw [sum_range_succ] at hle ⊢
      rw [List.range'_1_concat, List.foldl_append, ih (by omega)]
      simp only [List.foldl_cons, List.foldl_nil, update_self]
      rw [update_of_ne (show 1 + n ≠ 0 by omega), update_idem,
        Nat.add_comm 1 n, ulong_of_lt (by omega)]
  exact hgen 7 (Nat.le_refl 7)

/-- The halves of bucket `8 + i` go where no later step reads. -/
theorem splitBckts_apply (row : Nat → Nat) (hn : n ≤ 7) (j : Nat) :
    (List.range' 1 n).foldl splitBckt row j
      = if 2 ≤ j ∧ j < 2 * n + 2 then
          if j % 2 = 0 then row (8 + j / 2) / 2 else row (8 + j / 2) - row (8 + j / 2) / 2
        else row j := by
  induction n generalizing j with
  | zero => rw [if_neg (by omega)]; rfl
  | succ n ih =>
    have hread : (List.range' 1 n).foldl splitBckt row (8 + (1 + n)) = row (8 + (1 + n)) := by
      rw [ih (by omega), if_neg (by omega)]
    rw [List.range'_1_concat, List.foldl_append, List.foldl_cons, List.foldl_nil, splitBckt]
    simp only [hread]
    by_cases hodd : j = 2 * (1 + n) + 1
    · subst hodd
      rw [update_self, if_pos (by omega), if_neg (by omega),
        show (2 * (1 + n) + 1) / 2 = 1 + n by omega]
    · rw [update_of_ne hodd]
      by_cases heven : j = 2 * (1 + n)
      · subst heven
        rw [update_self, if_pos (by omega), if_pos (by omega),
          show 2 * (1 + n) / 2 = 1 + n by omega]
      · rw [update_of_ne heven, ih (by omega)]
        by_cases hj : 2 ≤ j ∧ j < 2 * n + 2
        · rw [if_pos hj, if_pos (show 2 ≤ j ∧ j < 2 * (n + 1) + 2 by omega)]
        · rw [if_neg hj, if_neg (by omega)]

lemma rowSum_shrink (row : Nat → Nat) (h : rowSum row < 2 ^ 64) :
    rowSum (shrinkRow row) = rowSum row := by
  have hhalves := rowSum_halves row
  have hgather := gatherLeft_eq row h
  have hfirst := le_sum (fun b => row (8 + b)) (show 0 < 8 by omega)
  simp only [Nat.add_zero] at hfirst
  have hrest : ∀ i ∈ range 7,
      shrinkRow row (2 * (i + 1)) + shrinkRow row (2 * (i + 1) + 1) = row (8 + (i + 1)) := by
    intro i hi
    have hi := Finset.mem_range.mp hi
    simp only [shrinkRow]
    rw [splitBckts_apply _ (Nat.le_refl 7), splitBckts_apply _ (Nat.le_refl 7),
      if_pos (by omega), if_pos (by omega), if_pos (by omega), if_neg (by omega),
      show 2 * (i + 1) / 2 = i + 1 by omega, show (2 * (i + 1) + 1) / 2 = i + 1 by omega,
      update_of_ne (by omega), update_of_ne (by omega), hgather,
      update_of_ne (by omega)]
    omega
  have hpair : shrinkRow row 0 + shrinkRow row 1
      = ∑ b ∈ range 8, row b + row 8 := by
    simp only [shrinkRow]
    rw [splitBckts_apply _ (Nat.le_refl 7), splitBckts_apply _ (Nat.le_refl 7),
      if_neg (by omega), if_neg (by omega), update_self,
      update_of_ne (by omega), update_self, hgather, update_self,
      update_of_ne (by omega), ulong_of_lt (by omega)]
    omega
  rw [rowSum_pairs, sum_range_succ', sum_congr rfl hrest, hpair, hhalves,
    sum_range_succ' (fun b => row (8 + b)), Nat.add_zero]
  omega

theorem foldl_uint_add (f : Nat → Nat) (n : Nat) :
    (List.range n).foldl (fun sum b => uint (sum + f b)) 0 = uint (∑ b ∈ Finset.range n, f b) := by
  induction n with
  | zero => rfl
  | succ n ih =>
    rw [List.range_succ, List.foldl_append, ih, sum_range_succ]
    simp only [List.foldl_cons, List.foldl_nil, uint, Nat.mod_add_mod]

/-- The sum of a group of buckets, wherever it is taken, if it is small enough for
the variable it is taken in. -/
theorem coalesced_eq (row : Nat → Nat)
    (hlong : ∑ b ∈ Finset.range units, row (units * i + b) < 2 ^ 64)
    (hint : units ≠ 2 → units ≠ 4 → ∑ b ∈ Finset.range units, row (units * i + b) < 2 ^ 32) :
    coalesced units row i = ∑ b ∈ Finset.range units, row (units * i + b) := by
  rw [coalesced]
  by_cases h2 : units = 2
  · subst h2
    rw [if_pos rfl]
    simp only [sum_range_succ, sum_range_zero, Nat.zero_add, Nat.add_zero] at hlong ⊢
    rw [ulong_of_lt hlong]
  · rw [if_neg h2]
    by_cases h4 : units = 4
    · subst h4
      rw [if_pos rfl]
      simp only [sum_range_succ, sum_range_zero, Nat.zero_add, Nat.add_zero]
        at hlong ⊢
      rw [ulong_of_lt hlong]
    · rw [if_neg h4, foldl_uint_add (fun b => row (units * i + b)), uint_of_lt (hint h2 h4)]

lemma coalesced_congr (units : Nat) (hu : 0 < units) (f f' : Nat → Nat) (i : Nat)
    (h : ∀ j, i ≤ j → f j = f' j) : coalesced units f i = coalesced units f' i := by
  have hread : ∀ b, f (units * i + b) = f' (units * i + b) := by
    intro b
    have := Nat.le_mul_of_pos_left i hu
    exact h _ (by omega)
  simp only [coalesced, hread]
  rw [h (2 * i) (by omega), h (2 * i + 1) (by omega), h (4 * i) (by omega),
    h (4 * i + 1) (by omega), h (4 * i + 2) (by omega), h (4 * i + 3) (by omega)]

lemma extendRow_apply (shift : Nat) (row : Nat → Nat) (hb : b < 16) :
    extendRow shift row b = if b < 16 / 2 ^ shift then coalesced (2 ^ shift) row b else 0 := by
  simp only [extendRow]
  rw [sweep_apply (coalesced_congr _ (Nat.two_pow_pos shift))]
  by_cases h : b < 16 / 2 ^ shift
  · rw [if_neg (by omega), if_pos h, if_pos h]
  · rw [if_pos (by omega), if_neg h]

lemma rowSum_extendRow :
    rowSum (extendRow shift row)
      = ∑ i ∈ Finset.range (16 / 2 ^ shift), coalesced (2 ^ shift) row i := by
  have hle : 16 / 2 ^ shift ≤ 16 := Nat.div_le_self 16 _
  have hcut : ∑ b ∈ range 16, extendRow shift row b
      = ∑ b ∈ range 16, if b < 16 / 2 ^ shift then coalesced (2 ^ shift) row b else 0 :=
    sum_congr rfl (fun b hb => extendRow_apply shift row (Finset.mem_range.mp hb))
  rw [rowSum, hcut, ← sum_filter]
  refine sum_congr (ext fun b => ?_) (fun _ _ => rfl)
  rw [mem_filter, mem_range, mem_range]
  omega

def GroupsFit (shift : Nat) (row : Nat → Nat) : Prop :=
  (shift = 3 → ∑ b ∈ Finset.range 8, row b < 2 ^ 32 ∧ ∑ b ∈ Finset.range 8, row (8 + b) < 2 ^ 32) ∧
  (shift = 4 → rowSum row < 2 ^ 32)

lemma rowSum_extend (h1 : 1 ≤ shift) (h4 : shift ≤ 4) (hrow : rowSum row < 2 ^ 64)
    (hfit : GroupsFit shift row) : rowSum (extendRow shift row) = rowSum row := by
  have hshift : shift = 1 ∨ shift = 2 ∨ shift = 3 ∨ shift = 4 := by omega
  have hgroups : 2 ^ shift * (16 / 2 ^ shift) = 16 := by
    obtain rfl | rfl | rfl | rfl := hshift <;> rfl
  rw [rowSum_extendRow, rowSum_groups row hgroups]
  refine sum_congr rfl (fun i hi => ?_)
  have hi := Finset.mem_range.mp hi
  have hle := group_le_rowSum row hgroups hi
  refine coalesced_eq row (by omega) (fun h2 h4' => ?_)
  obtain rfl | rfl | rfl | rfl := hshift
  · exact absurd rfl h2
  · exact absurd rfl h4'
  · obtain ⟨hleft, hright⟩ := hfit.1 rfl
    obtain rfl | rfl : i = 0 ∨ i = 1 := by omega
    · simpa using hleft
    · exact hright
  · have := hfit.2 rfl
    omega

end Tempesta.Apm
