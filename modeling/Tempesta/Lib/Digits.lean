import Mathlib

/-!
Numbers read digit by digit, the most significant one first.
-/

namespace DigitLib

/-- The number read so far, continued by the digits `ds` in base `b`. -/
def value (b : Nat) : Nat → List Nat → Nat
  | n, [] => n
  | n, d :: ds => value b (n * b + d) ds

variable {b n d : Nat} {ds : List Nat}

@[simp]
lemma value_nil : value b n [] = n := rfl

@[simp]
lemma value_cons : value b n (d :: ds) = value b (n * b + d) ds := rfl

/-- No digit makes the number smaller, so a bound on the whole is one on each part. -/
theorem le_value (hb : 0 < b) : n ≤ value b n ds := by
  induction ds generalizing n with
  | nil => exact Nat.le_refl n
  | cons d ds ih =>
    have hn : n ≤ n * b := Nat.le_mul_of_pos_right n hb
    have hd := ih (n := n * b + d)
    rw [value_cons]
    omega

end DigitLib
