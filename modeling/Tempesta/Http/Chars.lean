import Tempesta.Str
import Tempesta.Lib.Scan

/-!
Characters of the HTTP parsers, and the comparison with a known string that may
be spread over several pieces of data.
-/

namespace Tempesta.Http

open List ScanLib

def tfwLc (c : UInt8) : UInt8 := if 0x41 ≤ c ∧ c ≤ 0x5a then c + 0x20 else c

lemma tfwLc_tfwLc (c : UInt8) : tfwLc (tfwLc c) = tfwLc c := by
  rw [tfwLc, tfwLc]
  split
  next h =>
    rw [if_neg]
    rintro ⟨-, hle⟩
    have h1 := UInt8.le_iff_toNat_le.mp h.1
    have h2 := UInt8.le_iff_toNat_le.mp h.2
    have h3 := UInt8.le_iff_toNat_le.mp hle
    rw [UInt8.toNat_add] at h3
    change 0x41 ≤ c.toNat at h1
    change c.toNat ≤ 0x5a at h2
    change (c.toNat + 0x20) % 256 ≤ 0x5a at h3
    omega
  next => rfl

def isCrlf (c : UInt8) : Bool := c == 0x0d || c == 0x0a

def isWs (c : UInt8) : Bool := c == 0x20 || c == 0x09

/-- `'A' <= c && c <= 'Z'` -/
def isUpper (c : UInt8) : Bool := 0x41 ≤ c && c ≤ 0x5a

/-- `'a' <= c && c <= 'z'` -/
def isLower (c : UInt8) : Bool := 0x61 ≤ c && c ≤ 0x7a

/-- `CSTR_NEQ`, or the number of equal characters, which are the rest of the string
or all there are. -/
inductive TryStr where
  | neq
  | part (n : Nat)
  | full (n : Nat)
  deriving DecidableEq, Repr

/-- `__try_str` for a string of which `off` characters were seen at the end of the
data before. -/
def tryStr (str : List UInt8) (off : Nat) (data : List UInt8) : TryStr :=
  if str.length < off ∨ (data.head?.map tfwLc) ≠ str[off]? then .neq
  else
    let len := min data.length (str.length - off)
    if (data.take len).map tfwLc ≠ (str.drop off).take len then .neq
    else if off + len = str.length then .full len
    else .part len

variable {str data : List UInt8} {off n : Nat} {c : UInt8}

lemma tryStr_neq (hc : str[off]? ≠ some (tfwLc c)) : tryStr str off (c :: data) = .neq := by
  rw [tryStr, if_pos (.inr fun h => hc h.symm)]

lemma tryStr_eq (hc : str[off]? = some (tfwLc c)) :
    tryStr str off (c :: data) =
      if (data.take (min data.length (str.length - (off + 1)))).map tfwLc ≠
          (str.drop (off + 1)).take (min data.length (str.length - (off + 1))) then .neq
      else if off + 1 + min data.length (str.length - (off + 1)) = str.length then
        .full (min data.length (str.length - (off + 1)) + 1)
      else .part (min data.length (str.length - (off + 1)) + 1) := by
  obtain ⟨hlt, hget⟩ := List.getElem?_eq_some_iff.mp hc
  have hlen : min (c :: data).length (str.length - off) =
      min data.length (str.length - (off + 1)) + 1 := by
    rw [length_cons]
    omega
  have hfirst : ¬ (str.length < off ∨ ((c :: data).head?.map tfwLc) ≠ str[off]?) := by
    rw [hc]
    simp only [head?_cons, Option.map_some, ne_eq, not_true_eq_false, or_false]
    omega
  rw [tryStr, if_neg hfirst, hlen]
  simp only [drop_eq_getElem_cons hlt, hget, take_succ_cons, map_cons, ne_eq,
    List.cons.injEq, true_and]
  rw [← Nat.add_assoc, Nat.add_right_comm off]

lemma tryStr_last (hc : str[off]? = some (tfwLc c)) (hlen : off + 1 = str.length) :
    tryStr str off (c :: data) = .full 1 := by
  rw [tryStr_eq hc]
  simp [← hlen]

lemma tryStr_short (hc : str[off]? = some (tfwLc c)) (hlen : off + 1 ≠ str.length) :
    tryStr str off [c] = .part 1 := by
  rw [tryStr_eq hc]
  simp [hlen]

lemma tryStr_cons (hc : str[off]? = some (tfwLc c)) (hlen : off + 1 < str.length)
    (hdata : data ≠ []) :
    tryStr str off (c :: data) =
      match tryStr str (off + 1) data with
      | .neq => .neq
      | .part n => .part (n + 1)
      | .full n => .full (n + 1) := by
  rw [tryStr_eq hc]
  obtain ⟨d, data, rfl⟩ := exists_cons_of_ne_nil hdata
  by_cases hd : str[off + 1]? = some (tfwLc d)
  · have hfirst : ¬ (str.length < off + 1 ∨ ((d :: data).head?.map tfwLc) ≠ str[off + 1]?) := by
      rw [hd]
      simp only [head?_cons, Option.map_some, ne_eq, not_true_eq_false, or_false]
      omega
    rw [tryStr, if_neg hfirst]
    dsimp only
    split_ifs <;> rfl
  · rw [tryStr_neq hd, if_pos]
    rw [drop_eq_getElem_cons hlen]
    have hmin : min (d :: data).length (str.length - (off + 1)) =
        min data.length (str.length - (off + 1) - 1) + 1 := by
      rw [length_cons]
      omega
    rw [hmin, take_succ_cons, take_succ_cons, map_cons]
    intro heq
    rw [getElem?_eq_getElem hlen] at hd
    exact hd (congrArg some (List.cons.inj heq).1.symm)

lemma tryStr_zero_eq_full_iff (hstr : str ≠ []) :
    tryStr str 0 data = .full n ↔ n = str.length ∧ (data.take n).map tfwLc = str := by
  unfold tryStr
  constructor
  · intro h
    dsimp only at h
    split_ifs at h with hfirst heq hlen
    cases h
    rw [Nat.zero_add, Nat.sub_zero] at hlen
    rw [Nat.sub_zero] at heq ⊢
    refine ⟨hlen, ?_⟩
    have heq := not_not.mp heq
    rw [heq, drop_zero, hlen, take_length]
  · rintro ⟨rfl, h⟩
    have hlen : str.length ≤ data.length := by
      have := congrArg List.length h
      rw [length_map, length_take] at this
      omega
    have hmin : min data.length (str.length - 0) = str.length := by omega
    obtain ⟨s, ss, rfl⟩ := exists_cons_of_ne_nil hstr
    cases data with
    | nil => cases hlen
    | cons c data =>
      have hhead : tfwLc c = s := by
        rw [length_cons, take_succ_cons, map_cons] at h
        exact (List.cons.inj h).1
      rw [if_neg (by simp [hhead])]
      dsimp only
      rw [hmin, h, drop_zero, take_length, if_neg (not_not.mpr rfl),
        if_pos (Nat.zero_add _)]

lemma tryStr_full_pos (h : tryStr str off data = .full n) (hoff : off < str.length) : 0 < n := by
  unfold tryStr at h
  dsimp only at h
  repeat' split at h
  all_goals cases h
  omega

/-- A scanner whose states `sat n` compare single characters with a string reads it
as `__try_str` does. -/
theorem tryStr_eq_scan {σ ρ : Type} {step : σ → UInt8 → σ ⊕ ρ} {sat : Nat → σ} {fin : σ} {bad : ρ}
    (hstep : ∀ n c, n < str.length → step (sat n) c = if str[n]? =
      some (tfwLc c) then .inl (if n + 1 = str.length then fin else sat (n + 1)) else .inr bad)
    (hoff : off < str.length) (hdata : data ≠ []) :
    scan step (sat off) data =
      match tryStr str off data with
      | .neq => .inr bad
      | .part n => .inl (sat (off + n))
      | .full n => scan step fin (data.drop n) := by
  induction data generalizing off with
  | nil => exact absurd rfl hdata
  | cons c data ih =>
    have hs := hstep off c hoff
    by_cases hc : str[off]? = some (tfwLc c)
    · rw [if_pos hc] at hs
      by_cases hlast : off + 1 = str.length
      · rw [if_pos hlast] at hs
        rw [tryStr_last hc hlast, scan_next hs]
        rfl
      · rw [if_neg hlast] at hs
        rw [scan_next hs]
        by_cases hnil : data = []
        · rw [hnil, tryStr_short hc hlast]
          rfl
        · rw [tryStr_cons hc (by omega) hnil, ih (by omega) hnil]
          cases tryStr str (off + 1) data with
          | neq => rfl
          | part n =>
            show Sum.inl (sat (off + 1 + n)) = Sum.inl (sat (off + (n + 1)))
            rw [Nat.add_right_comm, Nat.add_assoc]
          | full n => rfl
    · rw [if_neg hc] at hs
      rw [tryStr_neq hc, scan_stop hs]

end Tempesta.Http
