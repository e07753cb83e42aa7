import Tempesta.Addr.Parse
import Tempesta.Lib.Digits

/-!
Writing an address as text, and reading it back.
-/

namespace Tempesta.Addr

open DigitLib Ctype

/-- `(q - 10 * r) + '0'` as a byte; the difference is one of 32-bit numbers. -/
def decChar (q r : Nat) : UInt8 := UInt8.ofNat (q + 2 ^ 32 - 10 * r + 0x30)

/-- The cases 1, 3 and 5 of `tfw_put_dec` from case 3 on. -/
def putDec3 (q : Nat) : List UInt8 :=
  let r := q * 0x00cd / 2 ^ 11
  let q' := r * 0x000d / 2 ^ 7
  [UInt8.ofNat (q' + 0x30), decChar r q', decChar q r]

/-- The cases 4 and 2 of `tfw_put_dec` from case 2 on. -/
def putDec2 (q : Nat) : List UInt8 :=
  let r := q * 0x000d / 2 ^ 7
  [UInt8.ofNat (r + 0x30), decChar q r]

/-- `tfw_put_dec` for numbers below 65536. -/
def tfwPutDec (q : Nat) : List UInt8 :=
  if q ≤ 9 then [UInt8.ofNat (q + 0x30)]
  else if q ≤ 99 then putDec2 q
  else if q ≤ 999 then putDec3 q
  else if q ≤ 9999 then
    let r := q * 0x0ccd / 2 ^ 15
    let q' := r * 0x00cd / 2 ^ 11
    putDec2 q' ++ [decChar r q', decChar q r]
  else
    let r := q * 0xcccd / 2 ^ 19
    let q' := r * 0x0ccd / 2 ^ 15
    putDec3 q' ++ [decChar r q', decChar q r]

/-- `hex_asc[d]` -/
def hexAsc (d : Nat) : UInt8 := UInt8.ofNat (if d < 10 then d + 0x30 else d + 0x57)

/-- The digits `tfw_put_ipv6_digit_group` writes. -/
def groupDigits (group : UInt16) : List Nat :=
  let g := group.toNat
  if g ≤ 0xf then [g]
  else if g ≤ 0xff then [g / 16, g % 16]
  else if g ≤ 0xfff then [g / 256, g / 16 % 16, g % 16]
  else [g / 4096, g / 256 % 16, g / 16 % 16, g % 16]

def tfwPutIpv6DigitGroup (group : UInt16) : List UInt8 := (groupDigits group).map hexAsc

def shouldPrintPort (printPort : Bool) (port : UInt16) : Bool :=
  printPort && port != 0 && port != UInt16.ofNat defPort

/-- `tfw_addr_is_v4mapped` -/
def TfwAddr.isV4mapped (addr : TfwAddr) : Bool :=
  addr.groups.toList.take 6 == [0, 0, 0, 0, 0, 0xffff]

def TfwAddr.octets (addr : TfwAddr) : List Nat :=
  (addr.groups.toList.drop 6).flatMap fun g => [g.toNat / 256, g.toNat % 256]

def tfwAddrFmtV4 (addr : TfwAddr) (printPort : Bool) : List UInt8 :=
  [0x2e].intercalate (addr.octets.map tfwPutDec) ++
    if shouldPrintPort printPort addr.port then 0x3a :: tfwPutDec addr.port.toNat else []

/-- The groups from the current one on; `pos` is what was written before, `omitted`
is `zeros_already_omitted`. -/
def fmtGroups : List UInt8 → Bool → List UInt16 → List UInt8
  | pos, _, [] => pos
  | pos, _, [g] => pos ++ tfwPutIpv6DigitGroup g
  | pos, omitted, g :: g' :: gs =>
    if g ≠ 0 ∨ omitted then fmtGroups (pos ++ tfwPutIpv6DigitGroup g ++ [0x3a]) omitted (g' :: gs)
    else if g' ≠ 0 ∨ gs = [] then
      fmtGroups ((if pos.getLast? = some 0x3a then pos else pos ++ [0x3a]) ++ [0x3a]) true
        (g' :: gs)
    else fmtGroups pos omitted (g' :: gs)

def tfwAddrFmt (addr : TfwAddr) (printPort : Bool) : List UInt8 :=
  if addr.isV4mapped then tfwAddrFmtV4 addr printPort
  else if shouldPrintPort printPort addr.port then
    fmtGroups [0x5b] false addr.groups.toList ++ 0x5d :: 0x3a :: tfwPutDec addr.port.toNat
  else fmtGroups [] false addr.groups.toList

variable {q d : Nat}

lemma hexAsc_dec : ∀ d < 10, isDigit (hexAsc d) = true ∧ digit (hexAsc d) = d := by decide

lemma hexAsc_not_alpha : ∀ d < 10, (hexAsc d == 0x5b || isAlpha (hexAsc d)) = false := by decide

lemma hexAsc_letter : ∀ d < 16, 10 ≤ d → isDigit (hexAsc d) = false ∧
    isAlpha (hexAsc d) = true := by
  decide

lemma hexAsc_hex : ∀ d < 16, isXdigit (hexAsc d) = true ∧ xd (hexAsc d) = d := by decide

lemma hexAsc_ne : ∀ d < 16, hexAsc d ≠ 0x3a ∧ hexAsc d ≠ 0x5b ∧ hexAsc d ≠ 0x2e := by decide

/-- `l` is the number `q` in base `b`. -/
def Spells (b q : Nat) (l : List UInt8) : Prop :=
  ∃ d ds, l = (d :: ds).map hexAsc ∧ (∀ x ∈ d :: ds, x < b) ∧ value b 0 (d :: ds) = q

lemma groupDigits_spec (g : UInt16) :
    ∃ d ds, groupDigits g = d :: ds ∧ (∀ x ∈ d :: ds, x < 16) ∧ value 16 0 (d :: ds) = g.toNat := by
  have hg := g.toNat_lt
  rw [groupDigits]
  split
  next h => exact ⟨g.toNat, [], rfl, by simp; omega, by simp⟩
  split
  next h => exact ⟨g.toNat / 16, [g.toNat % 16], rfl, by simp; omega, by simp; omega⟩
  split
  next h =>
    exact ⟨g.toNat / 256, [g.toNat / 16 % 16, g.toNat % 16], rfl, by simp; omega, by simp; omega⟩
  next h =>
    exact ⟨g.toNat / 4096, [g.toNat / 256 % 16, g.toNat / 16 % 16, g.toNat % 16], rfl,
      by simp; omega, by simp; omega⟩

lemma putGroup_spells (g : UInt16) : Spells 16 g.toNat (tfwPutIpv6DigitGroup g) := by
  obtain ⟨d, ds, hg, hds, hv⟩ := groupDigits_spec g
  exact ⟨d, ds, congrArg _ hg, hds, hv⟩

/-- The two digits that `tfw_put_dec` splits with the shortest multiplication. -/
def twoDigits (q : Nat) : Nat :=
  if q ≤ 99 then q else if q ≤ 999 then q / 10 else if q ≤ 9999 then q / 100 else 0

/-- That multiplication is no division by ten for these. -/
def decPrints (q : Nat) : Bool := twoDigits q ∉ [69, 79, 89, 99]

lemma mul13_div : ∀ q < 100, q ∉ [69, 79, 89, 99] → q * 0x000d / 2 ^ 7 = q / 10 := by decide

lemma mulCd_div (h : q < 1000) : q * 0x00cd / 2 ^ 11 = q / 10 := by omega

lemma mulCcd_div (h : q < 10000) : q * 0x0ccd / 2 ^ 15 = q / 10 := by omega

lemma mulCccd_div (h : q < 2 ^ 16) : q * 0xcccd / 2 ^ 19 = q / 10 := by omega

lemma decChar_div : decChar q (q / 10) = hexAsc (q % 10) := by
  rw [decChar, hexAsc, if_pos (Nat.mod_lt q (by decide))]
  apply UInt8.toNat_inj.mp
  rw [UInt8.toNat_ofNat', UInt8.toNat_ofNat']
  omega

lemma ofNat_digit (h : d < 10) : UInt8.ofNat (d + 0x30) = hexAsc d := by
  rw [hexAsc, if_pos h]

lemma putDec2_eq (hq : q < 100) (h : q ∉ [69, 79, 89, 99]) :
    putDec2 q = [q / 10, q % 10].map hexAsc := by
  rw [putDec2, mul13_div q hq h, decChar_div, ofNat_digit (by omega)]
  rfl

lemma putDec3_eq (hq : q < 1000) (h : q / 10 ∉ [69, 79, 89, 99]) :
    putDec3 q = [q / 100, q / 10 % 10, q % 10].map hexAsc := by
  have hh : q / 10 / 10 = q / 100 := by omega
  rw [putDec3, mulCd_div hq, mul13_div (q / 10) (by omega) h, decChar_div, decChar_div, hh,
    ofNat_digit (by omega)]
  rfl

lemma tfwPutDec_spells (hq : q < 2 ^ 16) (h : decPrints q = true) :
    Spells 10 q (tfwPutDec q) := by
  have h := of_decide_eq_true h
  rw [twoDigits] at h
  rw [tfwPutDec]
  by_cases h1 : q ≤ 9
  · rw [if_pos h1, ofNat_digit (by omega)]
    exact ⟨q, [], rfl, by simp; omega, by simp⟩
  rw [if_neg h1]
  by_cases h2 : q ≤ 99
  · rw [if_pos h2] at h ⊢
    rw [putDec2_eq (by omega) h]
    exact ⟨q / 10, [q % 10], rfl, by simp; omega, by simp; omega⟩
  rw [if_neg h2] at h ⊢
  by_cases h3 : q ≤ 999
  · rw [if_pos h3] at h ⊢
    rw [putDec3_eq (by omega) h]
    exact ⟨q / 100, [q / 10 % 10, q % 10], rfl, by simp; omega, by simp; omega⟩
  rw [if_neg h3] at h ⊢
  by_cases h4 : q ≤ 9999
  · rw [if_pos h4] at h ⊢
    have h100 : q / 10 / 10 = q / 100 := by omega
    dsimp only
    rw [mulCcd_div (by omega), mulCd_div (by omega), decChar_div, decChar_div, h100,
      putDec2_eq (by omega) h]
    exact ⟨q / 100 / 10, [q / 100 % 10, q / 10 % 10, q % 10], rfl, by simp; omega, by simp; omega⟩
  · rw [if_neg h4]
    have h100 : q / 10 / 10 = q / 100 := by omega
    dsimp only
    rw [mulCccd_div hq, mulCcd_div (by omega), decChar_div, decChar_div, h100,
      putDec3_eq (by omega) (by simp; omega)]
    exact ⟨q / 100 / 100, [q / 100 / 10 % 10, q / 100 % 10, q / 10 % 10, q % 10], rfl,
      by simp; omega, by simp; omega⟩

/-- Else the byte below `0` is among the digits. -/
theorem mul13_slash : ∀ q ∈ [69, 79, 89, 99], decChar q (q * 0x000d / 2 ^ 7) = 0x2f := by decide

lemma tfwPutDec_slash (h : decPrints q = false) : 0x2f ∈ tfwPutDec q := by
  have h : twoDigits q ∈ [69, 79, 89, 99] := by
    simpa only [decPrints, decide_eq_false_iff_not, not_not] using h
  have hs := mul13_slash _ h
  have hr : 10 ≤ twoDigits q := by
    simp only [List.mem_cons, List.not_mem_nil, or_false] at h
    omega
  rw [twoDigits] at hs hr
  rw [tfwPutDec]
  by_cases h1 : q ≤ 9
  · rw [if_pos (by omega)] at hr
    omega
  rw [if_neg h1]
  by_cases h2 : q ≤ 99
  · rw [if_pos h2] at hs ⊢
    rw [putDec2, hs]
    simp
  rw [if_neg h2] at hs hr ⊢
  by_cases h3 : q ≤ 999
  · rw [if_pos h3] at hs ⊢
    rw [putDec3, mulCd_div (by omega), hs]
    simp
  rw [if_neg h3] at hs hr ⊢
  by_cases h4 : q ≤ 9999
  · rw [if_pos h4] at hs ⊢
    have h100 : q / 10 / 10 = q / 100 := by omega
    dsimp only
    rw [mulCcd_div (by omega), mulCd_div (by omega), h100, putDec2, hs]
    simp
  · rw [if_neg h4] at hr
    omega

end Tempesta.Addr
