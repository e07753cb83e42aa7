import Mathlib

/-!
Numbers as bytes of seven bits each, the lowest first, with the top bit set on all
bytes but the last one; and what a reader has of a number that it puts together
by addition or by a bitwise or.
-/

namespace VarintLib

/-- The bytes of `n`, at most `fuel + 1` of them. -/
def digits : Nat → Nat → List UInt8
  | 0, n => [UInt8.ofNat n]
  | fuel + 1, n =>
    if 127 < n then UInt8.ofNat (n % 128 + 128) :: digits fuel (n / 128)
    else [UInt8.ofNat n]

def conts (n : Nat) : List UInt8 := digits n n

variable {f g n i d m x : Nat}

lemma digits_eq (hf : n ≤ f) (hg : n ≤ g) : digits f n = digits g n := by
  induction f generalizing g n with
  | zero =>
    obtain rfl : n = 0 := by omega
    cases g with
    | zero => rfl
    | succ g => rfl
  | succ f ih =>
    cases g with
    | zero =>
      obtain rfl : n = 0 := by omega
      rfl
    | succ g =>
      rw [digits, digits]
      split
      · rw [ih (show n / 128 ≤ f by omega) (show n / 128 ≤ g by omega)]
      · rfl

lemma conts_of_le (h : n ≤ 127) : conts n = [UInt8.ofNat n] := by
  rw [conts]
  cases n with
  | zero => rfl
  | succ n => rw [digits, if_neg (by omega)]

lemma conts_of_gt (h : 127 < n) : conts n = UInt8.ofNat (n % 128 + 128) :: conts (n / 128) := by
  rw [conts, conts]
  cases n with
  | zero => omega
  | succ n => rw [digits, if_pos h, digits_eq (show (n + 1) / 128 ≤ n by omega) (Nat.le_refl _)]

lemma toNat_ofNat_lt (h : n < 256) : (UInt8.ofNat n).toNat = n :=
  UInt8.toNat_ofNat_of_lt h

lemma length_conts_pos (n : Nat) : 0 < (conts n).length := by
  by_cases h : 127 < n
  · rw [conts_of_gt h]
    exact Nat.succ_pos _
  · rw [conts_of_le (by omega)]
    exact Nat.succ_pos _

lemma lt_pow_length_conts (n : Nat) : n < 128 ^ (conts n).length := by
  induction n using Nat.strongRecOn with
  | ind n ih =>
    by_cases h : 127 < n
    · have hdiv := ih (n / 128) (by omega)
      rw [conts_of_gt h, List.length_cons, Nat.pow_succ]
      omega
    · rw [conts_of_le (by omega), List.length_singleton]
      omega

lemma length_conts_div (h : i < (conts n).length) :
    (conts (n / 128 ^ i)).length + i = (conts n).length := by
  induction i with
  | zero => simp
  | succ i ih =>
    have hi := ih (by omega)
    have hgt : 127 < n / 128 ^ i := by
      by_contra hle
      rw [conts_of_le (by omega), List.length_singleton] at hi
      omega
    have hcons := congrArg List.length (conts_of_gt hgt)
    rw [List.length_cons, Nat.div_div_eq_div_mul, ← Nat.pow_succ, Nat.succ_eq_add_one] at hcons
    omega

lemma or_one : d ||| 1 = if d % 2 = 1 then d else d + 1 := by
  have heven : 2 ^ 1 * (d / 2) + 1 = 2 ^ 1 * (d / 2) ||| 1 :=
    Nat.two_pow_add_eq_or_of_lt (by decide) (d / 2)
  by_cases hd : d % 2 = 1
  · have hd' : d = 2 ^ 1 * (d / 2) ||| 1 := by omega
    rw [if_pos hd, hd', Nat.or_assoc, Nat.or_self, ← hd']
  · have hd' : d = 2 ^ 1 * (d / 2) := by omega
    rw [if_neg hd]
    calc d ||| 1 = 2 ^ 1 * (d / 2) ||| 1 := by rw [← hd']
      _ = d + 1 := by omega

/-- A digit or-ed to what was read so far is lost if a carry has taken its place. -/
theorem or_shiftLeft (h : x < 2 * 2 ^ m) :
    d <<< m ||| x = if 2 ^ m ≤ x ∧ d % 2 = 1 then d * 2 ^ m + (x - 2 ^ m) else d * 2 ^ m + x := by
  by_cases hx : 2 ^ m ≤ x
  · obtain ⟨s, rfl⟩ := Nat.exists_eq_add_of_le hx
    have hs : s < 2 ^ m := by omega
    have hone : 2 ^ m + s = 1 <<< m ||| s := by
      rw [← Nat.shiftLeft_add_eq_or_of_lt hs, Nat.one_shiftLeft]
    rw [hone, ← Nat.or_assoc, ← Nat.shiftLeft_or_distrib, ← Nat.shiftLeft_add_eq_or_of_lt hs,
      ← hone, Nat.shiftLeft_eq]
    rw [or_one]
    by_cases hd : d % 2 = 1
    · rw [if_pos hd, if_pos ⟨hx, hd⟩, Nat.add_sub_cancel_left]
    · rw [if_neg hd, if_neg (fun h => hd h.2), Nat.add_mul, Nat.one_mul, Nat.add_assoc]
  · rw [if_neg (fun h => hx h.1), ← Nat.shiftLeft_add_eq_or_of_lt (by omega), Nat.shiftLeft_eq]

end VarintLib
