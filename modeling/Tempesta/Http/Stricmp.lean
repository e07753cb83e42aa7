import Tempesta.Http.Chars

/-!
Comparison without regard to case, as `__tfw_stricmp_avx2` makes it for a piece of data and
`__tfw_strcmp` for strings in chunks. Behind the last block of 32 bytes the vector code
compares eight bytes of a tail of eight bytes or more, whatever follows them.
-/

namespace Tempesta.Http

open List

/-- The `n` bytes at `off` differ at most in case. -/
def sameAt (s1 s2 : List UInt8) (off n : Nat) : Bool :=
  ((s1.drop off).take n).map tfwLc == ((s2.drop off).take n).map tfwLc

/-- `tfw_cstricmp` finds no difference in `len` bytes: up to 31 of them are compared in
halves that overlap, more of them in blocks and a tail of sixteen bytes. -/
def cstricmpEq (s1 s2 : List UInt8) (len : Nat) : Bool :=
  let off := len - len % 32
  if len < 32 then sameAt s1 s2 0 len
  else sameAt s1 s2 0 off &&
    (if len = off then true
     else if 7 < len - off then sameAt s1 s2 (off - 8) 16
     else sameAt s1 s2 (len - 16) 16)

/-- What is left of a string behind the first `cn` bytes of its chunk `c` -/
def chunkRest (c : List UInt8) (cn : Nat) (s : List (List UInt8)) : List (List UInt8) :=
  if cn = c.length then s else c.drop cn :: s

/-- The loop of `__tfw_strcmp` over the common pieces of two strings; every turn finishes a
chunk. -/
def overlapEq : Nat → List (List UInt8) → List (List UInt8) → Bool
  | n + 1, c1 :: s1, c2 :: s2 =>
    let cn := min c1.length c2.length
    cstricmpEq c1 c2 cn && overlapEq n (chunkRest c1 cn s1) (chunkRest c2 cn s2)
  | _, _, _ => true

/-- `tfw_stricmp` finds no difference. -/
def stricmpEq (s1 s2 : List (List UInt8)) : Bool :=
  s1.flatten.length == s2.flatten.length && overlapEq (s1.length + s2.length) s1 s2

/-- The strings are equal but for the case of ASCII letters. -/
def caseEq (a b : List UInt8) : Bool := a.map tfwLc == b.map tfwLc

variable {a b c : List UInt8} {s1 s2 s : List (List UInt8)} {len off n cn : Nat}

lemma caseEq_iff : caseEq a b = true ↔ a.map tfwLc = b.map tfwLc := beq_iff_eq

lemma sameAt_of_take (h : (a.take len).map tfwLc = (b.take len).map tfwLc) (hle : off + n ≤ len) :
    sameAt a b off n = true := by
  have hpiece : ∀ l : List UInt8,
      ((l.drop off).take n).map tfwLc = ((((l.take len).map tfwLc).drop off).take n) := by
    intro l
    rw [← map_drop, ← map_take, drop_take, take_take, Nat.min_eq_left (by omega)]
  rw [sameAt, beq_iff_eq, hpiece a, hpiece b, h]

lemma cstricmpEq_of_take (h : (a.take len).map tfwLc = (b.take len).map tfwLc) :
    cstricmpEq a b len = true := by
  rw [cstricmpEq]
  split
  · exact sameAt_of_take h (by omega)
  · rw [sameAt_of_take h (by omega), Bool.true_and]
    split
    · rfl
    · split
      · exact sameAt_of_take h (by omega)
      · exact sameAt_of_take h (by omega)

/-- Up to 31 bytes are compared in full. -/
lemma map_eq_of_stricmpEq (hshort : a.length < 32) (h : stricmpEq [a] [b] = true) :
    a.map tfwLc = b.map tfwLc := by
  simp only [stricmpEq, flatten_singleton, Bool.and_eq_true, beq_iff_eq] at h
  obtain ⟨hlen, hsame⟩ := h
  simp only [length_singleton, overlapEq, ← hlen, Nat.min_self, cstricmpEq, if_pos hshort,
    Bool.and_eq_true, sameAt, drop_zero, take_length, beq_iff_eq] at hsame
  rw [hsame.1, hlen, take_length]

lemma flatten_chunkRest (h : cn ≤ c.length) :
    (chunkRest c cn s).flatten = (c ++ s.flatten).drop cn := by
  rw [drop_append_of_le_length h, chunkRest]
  split
  next heq => rw [heq, drop_length, nil_append]
  next => rw [flatten_cons]

lemma overlapEq_of_caseEq (n : Nat) (h : s1.flatten.map tfwLc = s2.flatten.map tfwLc) :
    overlapEq n s1 s2 = true := by
  induction n generalizing s1 s2 with
  | zero => rfl
  | succ n ih =>
    cases s1 with
    | nil => rfl
    | cons c1 s1 =>
      cases s2 with
      | nil => rfl
      | cons c2 s2 =>
        rw [flatten_cons, flatten_cons] at h
        have hpiece : (c1.take (min c1.length c2.length)).map tfwLc =
            (c2.take (min c1.length c2.length)).map tfwLc := by
          have htake := congrArg (List.take (min c1.length c2.length)) h
          rwa [← map_take, ← map_take, take_append_of_le_length (Nat.min_le_left _ _),
            take_append_of_le_length (Nat.min_le_right _ _)] at htake
        rw [overlapEq, cstricmpEq_of_take hpiece, Bool.true_and]
        apply ih
        rw [flatten_chunkRest (Nat.min_le_left _ _), flatten_chunkRest (Nat.min_le_right _ _),
          map_drop, map_drop, h]

/-- Strings that are equal but for case are never told apart. -/
theorem stricmpEq_of_caseEq (h : caseEq s1.flatten s2.flatten = true) :
    stricmpEq s1 s2 = true := by
  rw [caseEq_iff] at h
  have hlen := congrArg List.length h
  rw [length_map, length_map] at hlen
  rw [stricmpEq, hlen, overlapEq_of_caseEq _ h, beq_self_eq_true, Bool.true_and]

/-- Of 50 bytes in one piece the last ten are not compared; in two pieces all of them are. -/
example :
    stricmpEq [ofAscii "customer-portal.production.eu-central-1.ag.example"]
      [ofAscii "customer-portal.production.eu-central-1.ai.example"] = true ∧
    stricmpEq [ofAscii "customer-portal.production.eu-central-1.ag.example"]
      [ofAscii "customer-portal.production.", ofAscii "eu-central-1.ai.example"] = false := by
  decide +kernel

end Tempesta.Http
