import Mathlib

/-!
The distance of numbers by exclusive or. What is nearer to a number is decided by one
bit, the highest one in which the two candidates differ.
-/

namespace XorLib

/-- `j` is the highest bit in which `a` and `b` differ. -/
def TopDiff (a b j : Nat) : Prop :=
  a.testBit j ≠ b.testBit j ∧ ∀ k, j < k → a.testBit k = b.testBit k

variable {a b j : Nat}

lemma TopDiff.symm (h : TopDiff a b j) : TopDiff b a j :=
  ⟨h.1.symm, fun k hk => (h.2 k hk).symm⟩

lemma exists_topDiff (h : a ≠ b) : ∃ j, TopDiff a b j := by
  have hxor : a ^^^ b ≠ 0 := by
    intro hzero
    exact h (Nat.xor_eq_zero_iff.mp hzero)
  obtain ⟨j, hj, htop⟩ := Nat.exists_most_significant_bit hxor
  refine ⟨j, ?_, ?_⟩
  · intro heq
    rw [Nat.testBit_xor, heq, Bool.xor_self] at hj
    exact Bool.false_ne_true hj
  · intro k hk
    have hbit := htop k hk
    rw [Nat.testBit_xor] at hbit
    exact bne_eq_false_iff_eq.mp hbit

lemma TopDiff.lt (h : TopDiff a b j) (ha : a.testBit j = false) : a < b := by
  have hb : b.testBit j = true := by
    have hne := h.1
    rw [ha] at hne
    exact Bool.eq_true_of_not_eq_false (Ne.symm hne)
  exact Nat.lt_of_testBit j ha hb h.2

/-- The exclusive or with one number leaves the place of the difference. -/
theorem TopDiff.xor (h : TopDiff a b j) (x : Nat) : TopDiff (x ^^^ a) (x ^^^ b) j := by
  refine ⟨?_, ?_⟩
  · rw [Nat.testBit_xor, Nat.testBit_xor]
    intro heq
    exact h.1 (Bool.xor_right_inj.mp heq)
  · intro k hk
    rw [Nat.testBit_xor, Nat.testBit_xor, h.2 k hk]

lemma TopDiff.xor_le_iff (h : TopDiff a b j) (x : Nat) :
    x ^^^ b ≤ x ^^^ a ↔ x.testBit j ≠ a.testBit j := by
  have hx := h.xor x
  constructor
  · intro hle heq
    have hlt := hx.lt (by rw [Nat.testBit_xor, heq, Bool.xor_self])
    omega
  · intro hne
    have hb : (x ^^^ b).testBit j = false := by
      rw [Nat.testBit_xor]
      have hab := h.1
      cases ha : a.testBit j <;> cases hb : b.testBit j <;> cases hxj : x.testBit j <;> simp_all
    exact Nat.le_of_lt (hx.symm.lt hb)

end XorLib
