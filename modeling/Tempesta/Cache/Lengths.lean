import Tempesta.Hpack.Integers
import Tempesta.Cache.DecodeExpand

/-!
The length fields of a stored header, as the decoder puts them together again. A field that
is read in one call is summed up; in a call that continues a field all bytes but the
first are or-ed.
-/

namespace Tempesta.Cache

open List Hpack VarintLib

/-- The number of bytes behind the first one in the field of a length of 127 or more -/
def digitsOf (n : Nat) : Nat := (conts (n - 127)).length

/-- What is known of the length `n` after `i` of these bytes -/
def lenPart (n i : Nat) : Nat := 127 + (n - 127) % 128 ^ i

/-- The sum has no carry into a place that is taken: the byte `i` may be or-ed. -/
def OrOk (n i : Nat) : Prop := ¬ (128 ^ i ≤ lenPart n i ∧ (n - 127) / 128 ^ i % 2 = 1)

lemma lenPart_zero (n : Nat) : lenPart n 0 = 127 := by
  rw [lenPart, Nat.pow_zero, Nat.mod_one]

lemma lenPart_succ (n i : Nat) :
    lenPart n (i + 1) = lenPart n i + (n - 127) / 128 ^ i % 128 * 128 ^ i := by
  rw [lenPart, lenPart, Nat.pow_succ, Nat.mod_mul, Nat.mul_comm (128 ^ i), Nat.add_assoc]

variable {n i d x x' o t : Nat} {src rest w p : List UInt8} {c : UInt8} {f : Nat → Nat → Nat}
  {ok : Nat → Prop} {r : FlexRes} {ps : List (List UInt8)}

lemma lenPart_le (h : 127 ≤ n) (i : Nat) : lenPart n i ≤ n := by
  have hmod := Nat.mod_le (n - 127) (128 ^ i)
  rw [lenPart]
  omega

lemma lenPart_digitsOf (h : 127 ≤ n) : lenPart n (digitsOf n) = n := by
  rw [lenPart, digitsOf, Nat.mod_eq_of_lt (lt_pow_length_conts _)]
  omega

lemma conts_eq_cons (m : Nat) : ∃ c, conts m = c :: (if 127 < m then conts (m / 128) else []) ∧
    c.toNat % 128 = m % 128 ∧ (127 < c.toNat ↔ 127 < m) := by
  by_cases h : 127 < m
  · refine ⟨UInt8.ofNat (m % 128 + 128), by rw [conts_of_gt h, if_pos h], ?_, ?_⟩
    · rw [toNat_ofNat_lt (by omega)]
      omega
    · rw [toNat_ofNat_lt (by omega)]
      omega
  · refine ⟨UInt8.ofNat m, by rw [conts_of_le (by omega), if_neg h], ?_, ?_⟩
    · rw [toNat_ofNat_lt (by omega)]
    · rw [toNat_ofNat_lt (by omega)]

lemma lt_digitsOf_iff (h : i < digitsOf n) :
    127 < (n - 127) / 128 ^ i ↔ i + 1 < digitsOf n := by
  have hlen := length_conts_div h
  rw [digitsOf]
  constructor
  · intro hgt
    have hcons := congrArg length (conts_of_gt hgt)
    have hpos := length_conts_pos ((n - 127) / 128 ^ i / 128)
    rw [length_cons] at hcons
    omega
  · intro hlt
    by_contra hle
    rw [conts_of_le (by omega), length_singleton] at hlen
    omega

/-- A byte put to what is known of a length: nothing too large comes of it, and the right
number exactly if it was right before and `ok` holds. -/
def GoodStep (f : Nat → Nat → Nat) (n i : Nat) (ok : Prop) : Prop :=
  ∀ x ≤ lenPart n i, f x ((n - 127) / 128 ^ i % 128 * 128 ^ i) ≤ lenPart n (i + 1) ∧
    (f x ((n - 127) / 128 ^ i % 128 * 128 ^ i) = lenPart n (i + 1) ↔ x = lenPart n i ∧ ok)

lemma goodStep_add (n i : Nat) : GoodStep (fun x y => x + y) n i True := by
  intro x hx
  have hsucc := lenPart_succ n i
  constructor
  · dsimp only
    omega
  · dsimp only
    rw [and_true]
    omega

lemma goodStep_or (hi : 0 < i) : GoodStep (fun x y => y ||| x) n i (OrOk n i) := by
  intro x hx
  have hpow : 128 ^ i = 2 ^ (7 * i) := by rw [Nat.pow_mul]
  have hbase : 128 ≤ 128 ^ i := Nat.le_self_pow (Nat.ne_of_gt hi) 128
  have hpart : lenPart n i < 2 * 128 ^ i := by
    rw [lenPart]
    omega
  have hsucc := lenPart_succ n i
  have hor := or_shiftLeft (d := (n - 127) / 128 ^ i % 128) (m := 7 * i) (x := x) (by omega)
  rw [Nat.shiftLeft_eq, ← hpow, Nat.mod_mod_of_dvd _ (by decide : 2 ∣ 128)] at hor
  dsimp only
  rw [hor, OrOk]
  by_cases hlost : 128 ^ i ≤ x ∧ (n - 127) / 128 ^ i % 2 = 1
  · rw [if_pos hlost]
    refine ⟨by omega, fun h => ?_, fun h => ?_⟩
    · omega
    · exact absurd ⟨h.1 ▸ hlost.1, hlost.2⟩ h.2
  · rw [if_neg hlost]
    refine ⟨by omega, fun h => ?_, fun h => by omega⟩
    have hxn : x = lenPart n i := by omega
    exact ⟨hxn, hxn ▸ hlost⟩

/-- What is left of the field of `n` behind `i` of its bytes is `src` and what follows in
later parts: `rest`, which has the text `w` behind the field. -/
structure FieldAt (n i : Nat) (src rest w : List UInt8) : Prop where
  lt : i < digitsOf n
  eq : src ++ rest = conts ((n - 127) / 128 ^ i) ++ w

/-- What comes of reading a part of the field of `n` that starts behind `i` of its bytes, with
`x` known so far -/
def LenSpec (n i x : Nat) (ok : Nat → Prop) (src rest w : List UInt8) : FlexRes → Prop
  | .done x' src' => src' ++ rest = w ∧ src'.length + (digitsOf n - i) = src.length ∧
      x' ≤ hpackLimit ∧ (127 ≤ n → n ≤ hpackLimit → x ≤ lenPart n i →
        x' ≤ n ∧ (x' = n ↔ x = lenPart n i ∧ ∀ k, i ≤ k → k < digitsOf n → ok k))
  | .more x' m => m = 7 * (i + src.length) ∧ FieldAt n (i + src.length) [] rest w ∧
      (127 ≤ n → n ≤ hpackLimit → x ≤ lenPart n i → x' ≤ lenPart n (i + src.length) ∧
        (x' = lenPart n (i + src.length) ↔
          x = lenPart n i ∧ ∀ k, i ≤ k → k < i + src.length → ok k))
  | .drop | .undefined => ¬ (127 ≤ n ∧ n ≤ hpackLimit ∧ x ≤ lenPart n i)

lemma FieldAt.cons (h : FieldAt n i (c :: src) rest w) :
    c.toNat % 128 = (n - 127) / 128 ^ i % 128 ∧
      (127 < c.toNat ∧ FieldAt n (i + 1) src rest w ∨
        ¬ 127 < c.toNat ∧ i + 1 = digitsOf n ∧ src ++ rest = w) := by
  obtain ⟨b, hb, hdigit, hmore⟩ := conts_eq_cons ((n - 127) / 128 ^ i)
  have heq := h.eq
  rw [hb, cons_append, cons_append] at heq
  obtain ⟨rfl, htail⟩ := List.cons.inj heq
  refine ⟨hdigit, ?_⟩
  by_cases hgt : 127 < (n - 127) / 128 ^ i
  · refine Or.inl ⟨hmore.mpr hgt, (lt_digitsOf_iff h.lt).mp hgt, ?_⟩
    rw [htail, if_pos hgt, Nat.div_div_eq_div_mul, ← Nat.pow_succ]
  · refine Or.inr ⟨fun hc => hgt (hmore.mp hc), ?_, ?_⟩
    · have hlt := h.lt
      have hnot : ¬ i + 1 < digitsOf n := fun hlt => hgt ((lt_digitsOf_iff h.lt).mpr hlt)
      omega
    · rw [htail, if_neg hgt, nil_append]

lemma digit_lt (hn : 127 ≤ n) (hlim : n ≤ hpackLimit) :
    (n - 127) / 128 ^ i % 128 * 128 ^ i < 2 ^ 32 := by
  have hsucc := lenPart_succ n i
  have hle := lenPart_le hn (i + 1)
  have hlimit : hpackLimit = 1048576 := rfl
  omega

lemma lt_of_lt_digitsOf (hlim : n ≤ hpackLimit) (h : i < digitsOf n) :
    7 * i < 32 := by
  by_contra hge
  have hlimit : hpackLimit = 1048576 := rfl
  have hgt := (lt_digitsOf_iff (n := n) (i := 3) (by omega)).mpr (by omega)
  omega

/-- What a byte makes of the number `x`, with nothing said of a length that is too large -/
def Reads (n i x x' : Nat) (ok : Prop) : Prop :=
  127 ≤ n → n ≤ hpackLimit → x ≤ lenPart n i →
    x' ≤ lenPart n (i + 1) ∧ (x' = lenPart n (i + 1) ↔ x = lenPart n i ∧ ok)

lemma GoodStep.reads {ok : Prop} (h : GoodStep f n i ok) (hd : d = (n - 127) / 128 ^ i % 128)
    (x : Nat) : Reads n i x (f x ((d <<< (7 * i)) % 2 ^ 32)) ok := by
  intro hn hlim hx
  have hpow : 2 ^ (7 * i) = 128 ^ i := by rw [Nat.pow_mul]
  rw [hd, Nat.shiftLeft_eq, hpow, Nat.mod_eq_of_lt (digit_lt hn hlim)]
  exact h x hx

lemma LenSpec.last (hread : Reads n i x x' (ok i)) (hi : i + 1 = digitsOf n)
    (hw : src ++ rest = w) (hlimit : x' ≤ hpackLimit) :
    LenSpec n i x ok (c :: src) rest w (.done x' src) := by
  refine ⟨hw, by rw [length_cons]; omega, hlimit, fun hn hlim hx => ?_⟩
  obtain ⟨hle, heq⟩ := hread hn hlim hx
  rw [hi, lenPart_digitsOf hn] at hle heq
  refine ⟨hle, heq.trans (and_congr_right fun _ => ⟨fun hok k hik hk => ?_, fun hok => ?_⟩)⟩
  · obtain rfl : k = i := by omega
    exact hok
  · exact hok i (Nat.le_refl i) (by omega)

lemma LenSpec.step (hread : Reads n i x x' (ok i)) (hi : i + 1 < digitsOf n)
    (h : LenSpec n (i + 1) x' ok src rest w r) : LenSpec n i x ok (c :: src) rest w r := by
  have hsplit : ∀ j, i < j → ((ok i ∧ ∀ k, i + 1 ≤ k → k < j → ok k) ↔
      ∀ k, i ≤ k → k < j → ok k) := by
    intro j hj
    constructor
    · rintro ⟨hok, hall⟩ k hik hk
      rcases Nat.eq_or_lt_of_le hik with rfl | hlt
      · exact hok
      · exact hall k hlt hk
    · intro hall
      exact ⟨hall i (Nat.le_refl i) hj, fun k hk => hall k (by omega)⟩
  cases r with
  | done x₂ src' =>
    obtain ⟨hw, hlen, hlimit, hval⟩ := h
    refine ⟨hw, by rw [length_cons]; omega, hlimit, fun hn hlim hx => ?_⟩
    obtain ⟨hle, heq⟩ := hread hn hlim hx
    obtain ⟨hle', heq'⟩ := hval hn hlim hle
    rw [heq, and_assoc, hsplit _ (by omega)] at heq'
    exact ⟨hle', heq'⟩
  | more x₂ m =>
    obtain ⟨hm, hat, hval⟩ := h
    have hlen : i + (c :: src).length = i + 1 + src.length := by
      rw [length_cons]
      omega
    rw [LenSpec, hlen]
    refine ⟨hm, hat, fun hn hlim hx => ?_⟩
    obtain ⟨hle, heq⟩ := hread hn hlim hx
    obtain ⟨hle', heq'⟩ := hval hn hlim hle
    rw [heq, and_assoc, hsplit _ (by omega)] at heq'
    exact ⟨hle', heq'⟩
  | drop => exact fun hall => h ⟨hall.1, hall.2.1, (hread hall.1 hall.2.1 hall.2.2).1⟩
  | undefined => exact fun hall => h ⟨hall.1, hall.2.1, (hread hall.1 hall.2.1 hall.2.2).1⟩

lemma LenSpec.drop (hread : Reads n i x x' (ok i)) (hlimit : hpackLimit < x') :
    LenSpec n i x ok src rest w .drop := by
  rintro ⟨hn, hlim, hx⟩
  have hle := (hread hn hlim hx).1
  have hpart := lenPart_le hn (i + 1)
  omega

lemma LenSpec.undefined (hi : i < digitsOf n) (hm : 32 ≤ 7 * i) :
    LenSpec n i x ok src rest w .undefined := by
  rintro ⟨-, hlim, -⟩
  have hlt := lt_of_lt_digitsOf hlim hi
  omega

lemma getLen_spec (src : List UInt8) (x : Nat) (hat : FieldAt n i src rest w)
    (hstep : ∀ k, i ≤ k → GoodStep f n k (ok k)) :
    LenSpec n i x ok src rest w (getLen f x (7 * i) src) := by
  induction src generalizing i x with
  | nil =>
    refine ⟨rfl, hat, fun hn hlim hx => ⟨hx, fun h => ⟨h, fun k hik hki => ?_⟩, And.left⟩⟩
    rw [length_nil] at hki
    omega
  | cons c src ih =>
    obtain ⟨hdigit, hcases⟩ := hat.cons
    have hread := (hstep i (Nat.le_refl i)).reads hdigit x
    rw [getLen]
    by_cases hm : 32 ≤ 7 * i
    · rw [if_pos hm]
      exact LenSpec.undefined hat.lt hm
    rw [if_neg hm]
    by_cases hbig : hpackLimit < f x ((c.toNat % 128) <<< (7 * i) % 2 ^ 32)
    · rw [if_pos hbig]
      exact LenSpec.drop hread hbig
    rw [if_neg hbig]
    rcases hcases with ⟨hgt, hnext⟩ | ⟨hle, hlast, hw⟩
    · rw [if_pos hgt]
      exact LenSpec.step hread hnext.lt (ih _ hnext fun k hk => hstep k (by omega))
    · rw [if_neg hle]
      exact LenSpec.last hread hlast hw (by omega)

lemma getFlexible_spec (hat : FieldAt n 0 src rest w) :
    LenSpec n 0 127 (fun _ => True) src rest w (getFlexible 127 0 src) := by
  rw [getFlexible_eq]
  exact getLen_spec src 127 hat fun k _ => goodStep_add n k

lemma getContinue_spec (hat : FieldAt n i src rest w) (hsrc : src ≠ []) :
    LenSpec n i x (fun k => i < k → OrOk n k) src rest w (getContinue x (7 * i) src) := by
  cases src with
  | nil => exact absurd rfl hsrc
  | cons c src =>
    obtain ⟨hdigit, hcases⟩ := hat.cons
    have hread : Reads n i x (x + (c.toNat % 128) <<< (7 * i) % 2 ^ 32) (i < i → OrOk n i) := by
      rw [eq_true (fun h : i < i => absurd h (Nat.lt_irrefl i) : i < i → OrOk n i)]
      exact (goodStep_add n i).reads hdigit x
    rw [getContinue]
    by_cases hm : 32 ≤ 7 * i
    · rw [if_pos hm]
      exact LenSpec.undefined hat.lt hm
    rw [if_neg hm]
    by_cases hbig : hpackLimit < x + (c.toNat % 128) <<< (7 * i) % 2 ^ 32
    · rw [if_pos hbig]
      exact LenSpec.drop hread hbig
    rw [if_neg hbig]
    rcases hcases with ⟨hgt, hnext⟩ | ⟨hle, hlast, hw⟩
    · rw [if_pos hgt, getContinueFrom_eq]
      refine LenSpec.step hread hnext.lt (getLen_spec src _ hnext fun k hk => ?_)
      rw [eq_iff_iff.mpr (forall_prop_of_true (show i < k by omega))]
      exact goodStep_or (by omega)
    · rw [if_neg hle]
      exact LenSpec.last hread hlast hw (by omega)

/-- A part of `len` bytes that starts at `t` does not or a byte of the field at `o` to a
carry. -/
def PieceOk (o n t len : Nat) : Prop :=
  127 ≤ n → o < t → ∀ i < digitsOf n, t < o + 1 + i → o + 1 + i < t + len → OrOk n i

/-- The same for all parts, the first of which starts at `t` -/
def CutOk (o n : Nat) : Nat → List (List UInt8) → Prop
  | _, [] => True
  | t, p :: ps => PieceOk o n t p.length ∧ CutOk o n (t + p.length) ps

lemma cutOk_cons_of_le (h : t ≤ o) : CutOk o n t (p :: ps) ↔ CutOk o n (t + p.length) ps :=
  and_iff_right fun _ hlt => absurd hlt (Nat.not_lt.mpr h)

lemma cutOk_of_lt (hn : n < 127) (t : Nat) (ps : List (List UInt8)) :
    CutOk o n t ps := by
  induction ps generalizing t with
  | nil => trivial
  | cons p ps ih => exact ⟨fun h => absurd h (Nat.not_le.mpr hn), ih _⟩

lemma cutOk_of_behind (h : o + 1 + digitsOf n ≤ t) (ps : List (List UInt8)) : CutOk o n t ps := by
  induction ps generalizing t with
  | nil => trivial
  | cons p ps ih => exact ⟨fun _ _ i hi hlt => by omega, ih (by omega)⟩

end Tempesta.Cache
