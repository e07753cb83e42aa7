import Mathlib

/-!
Bit strings of numbers, most significant bit first.
-/

namespace BitLib

/-- The low `n` bits of `v`. -/
def bits : Nat → Nat → List Bool
  | 0, _ => []
  | n + 1, v => v.testBit n :: bits n v

/-- The number that a bit string denotes. -/
def value (bs : List Bool) : Nat :=
  bs.foldl (fun v b => 2 * v + b.toNat) 0

@[simp]
lemma length_bits (n v : Nat) : (bits n v).length = n := by
  induction n with
  | zero => rfl
  | succ n ih => rw [bits, List.length_cons, ih]

variable {n v w m k b a : Nat}

lemma bits_congr (h : ∀ i < n, v.testBit i = w.testBit i) : bits n v = bits n w := by
  induction n with
  | zero => rfl
  | succ n ih =>
    rw [bits, bits, h n n.lt_succ_self, ih fun i hi => h i (Nat.lt_succ_of_lt hi)]

lemma bits_mod (h : n ≤ m) : bits n (v % 2 ^ m) = bits n v := by
  apply bits_congr
  intro i hi
  rw [Nat.testBit_mod_two_pow, decide_eq_true (by omega : i < m), Bool.true_and]

lemma bits_add (m n v : Nat) : bits (m + n) v = bits m (v >>> n) ++ bits n v := by
  induction m with
  | zero => rw [Nat.zero_add]; rfl
  | succ m ih =>
    rw [Nat.succ_add, bits, bits, ih, Nat.testBit_shiftRight, Nat.add_comm n m]
    rfl

/-- Shifting a number in behind another one. -/
theorem bits_shiftLeft_or (hb : b < 2 ^ k) :
    bits (n + k) (v <<< k ||| b) = bits n v ++ bits k b := by
  rw [bits_add]
  congr 1
  · rw [Nat.shiftRight_or_distrib, Nat.shiftLeft_shiftRight, Nat.shiftRight_eq_zero b k hb,
      Nat.or_zero]
  · apply bits_congr
    intro i hi
    rw [Nat.testBit_or, Nat.testBit_shiftLeft, decide_eq_false (by omega : ¬ k ≤ i),
      Bool.false_and, Bool.false_or]

lemma take_bits (h : k ≤ n) (v : Nat) : (bits n v).take k = bits k (v >>> (n - k)) := by
  have hadd := bits_add k (n - k) v
  rw [Nat.add_sub_of_le h] at hadd
  rw [hadd, List.take_left' (length_bits _ _)]

lemma drop_bits (h : k ≤ n) (v : Nat) : (bits n v).drop k = bits (n - k) v := by
  have hadd := bits_add k (n - k) v
  rw [Nat.add_sub_of_le h] at hadd
  rw [hadd, List.drop_left' (length_bits _ _)]

private lemma foldl_bits :
    (bits n v).foldl (fun v b => 2 * v + b.toNat) a = a * 2 ^ n + v % 2 ^ n := by
  induction n generalizing a with
  | zero => simp [bits, Nat.mod_one]
  | succ n ih =>
    rw [bits, List.foldl_cons, ih, Nat.toNat_testBit, Nat.mod_pow_succ, Nat.pow_succ]
    ring

lemma value_bits : value (bits n v) = v % 2 ^ n := by
  rw [value, foldl_bits, Nat.zero_mul, Nat.zero_add]

end BitLib
