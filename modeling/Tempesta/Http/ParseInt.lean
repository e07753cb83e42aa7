import Tempesta.Str

/-!
The decimal parser of the HTTP parsers. The digits may be spread over several
pieces of data: the value read so far stays in an accumulator of the caller.
-/

namespace Tempesta.Http

def ulongMax : Nat := 2 ^ 64 - 1

def inAlphabet (c : UInt8) (a : List Nat) : Bool :=
  (a.getD (c.toNat >>> 6) 0).testBit (c.toNat &&& 0x3f)

def isDigit (c : UInt8) : Bool :=
  48 ≤ c.toNat && c.toNat ≤ 57

/-- What `__parse_ulong` returns: the number of bytes in front of a delimiter,
`CSTR_NEQ`, `CSTR_BADLEN` or `CSTR_POSTPONE`. -/
inductive UlongRet where
  | stop (n : Nat)
  | neq
  | badlen
  | postpone
  deriving DecidableEq, Repr

/-- The loop of `__parse_ulong`, with the number of bytes that it has passed. -/
def parseUlongFrom (delimiterA : List Nat) (limit : Nat) : Nat → Nat → List UInt8 → UlongRet × Nat
  | _, acc, [] => (.postpone, acc)
  | n, acc, c :: data =>
    if inAlphabet c delimiterA then (.stop n, acc)
    else if !isDigit c then (.neq, acc)
    else if (limit - 10) / 10 < acc then (.badlen, acc)
    else parseUlongFrom delimiterA limit (n + 1) ((acc * 10 + (c.toNat - 48)) % 2 ^ 64) data

def parseUlong (data : List UInt8) (delimiterA : List Nat) (acc limit : Nat) : UlongRet × Nat :=
  parseUlongFrom delimiterA limit 0 acc data

/-- The white space of `__parse_ulong_ws`. -/
def whitespaceA : List Nat := [0x0000000100003e00, 0, 0, 0]

def parseUlongWs (data : List UInt8) (acc : Nat) : UlongRet × Nat :=
  parseUlong data whitespaceA acc ulongMax

/-- The number whose digits follow those of `acc`. -/
def decimal (acc : Nat) (digits : List UInt8) : Nat :=
  digits.foldl (fun v c => v * 10 + (c.toNat - 48)) acc

variable {acc limit n acc' : Nat} {digits ds ds' data : List UInt8} {c : UInt8}
  {delimiterA : List Nat}

@[simp]
lemma decimal_nil : decimal acc [] = acc := rfl

@[simp]
lemma decimal_cons : decimal acc (c :: digits) = decimal (acc * 10 + (c.toNat - 48)) digits := by
  simp only [decimal, List.foldl_cons]

lemma decimal_append : decimal acc (ds ++ ds') = decimal (decimal acc ds) ds' := by
  simp only [decimal, List.foldl_append]

lemma le_decimal (acc : Nat) (digits : List UInt8) : acc ≤ decimal acc digits := by
  induction digits generalizing acc with
  | nil => exact Nat.le_refl acc
  | cons c digits ih =>
    have := ih (acc * 10 + (c.toNat - 48))
    rw [decimal_cons]
    omega

lemma next_lt (hc : isDigit c = true) (hlimit : 10 ≤ limit) (hacc : ¬ (limit - 10) / 10 < acc) :
    acc * 10 + (c.toNat - 48) ≤ limit := by
  unfold isDigit at hc
  simp only [Bool.and_eq_true, decide_eq_true_eq] at hc
  omega

/-- Where the data ends before a delimiter, all of it were digits and their value
has been read. -/
theorem parseUlongFrom_postpone (hlimit : 10 ≤ limit ∧ limit ≤ ulongMax)
    (h : parseUlongFrom delimiterA limit n acc data = (.postpone, acc')) :
    (∀ c ∈ data, isDigit c = true) ∧ acc' = decimal acc data ∧
      (data ≠ [] → acc' ≤ limit) := by
  induction data generalizing n acc with
  | nil =>
    cases h
    exact ⟨nofun, rfl, fun h => absurd rfl h⟩
  | cons c data ih =>
    rw [parseUlongFrom] at h
    by_cases hdelim : inAlphabet c delimiterA = true
    · rw [if_pos hdelim] at h
      cases h
    rw [if_neg hdelim] at h
    by_cases hdigit : isDigit c = true
    · rw [hdigit] at h
      by_cases hacc : (limit - 10) / 10 < acc
      · simp [hacc] at h
      · have hle := next_lt hdigit hlimit.1 hacc
        have hmod : (acc * 10 + (c.toNat - 48)) % 2 ^ 64 = acc * 10 + (c.toNat - 48) := by
          apply Nat.mod_eq_of_lt
          have := hlimit.2
          unfold ulongMax at this
          omega
        simp only [Bool.not_true, Bool.false_eq_true, if_false, if_neg hacc, hmod] at h
        obtain ⟨hdigits, hval, hbound⟩ := ih h
        refine ⟨List.forall_mem_cons.mpr ⟨hdigit, hdigits⟩, hval, fun _ => ?_⟩
        cases data with
        | nil =>
          rw [hval]
          exact hle
        | cons d data => exact hbound (List.cons_ne_nil d data)
    · simp [hdigit] at h

end Tempesta.Http
