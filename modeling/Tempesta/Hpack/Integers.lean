import Tempesta.Lib.Scan
import Tempesta.Lib.Varint
import Tempesta.Hpack.Decode

/-!
The integers of HPACK. `GET_FLEXIBLE` sums up the bytes behind the prefix,
`GET_CONTINUE` ors all bytes of a later buffer but the first one to the sum, and
`write_int` writes what `GET_FLEXIBLE` reads.
-/

namespace Tempesta.Hpack

open List VarintLib ScanLib

/-- `write_int`: the bytes that are stored from `res_idx->buf` on -/
def writeInt (index max mask : Nat) : List UInt8 :=
  if index < max then [UInt8.ofNat (index ||| mask)]
  else UInt8.ofNat (max ||| mask) :: conts (index - max)

/-- `HPACK_MAX_INT`, with `DIV_ROUND_UP(sizeof(unsigned long), 7)` -/
def hpackMaxInt : Nat := (8 + 6) / 7 + 1

/-- The loop of `tfw_hpack_int_size`, which divides `index` at most `index` times -/
def intSizeLoop : Nat → Nat → Nat → Nat
  | 0, size, _ => size
  | fuel + 1, size, index =>
    if 0x7F < index then intSizeLoop fuel (size + 1) (index >>> 7) else size

def tfwHpackIntSize (index max : Nat) : Nat :=
  if index < max then 1 else intSizeLoop (index - max) 2 (index - max)

/-- An integer is read: its bits in the first byte, and the bytes behind it if these are all
set. -/
def readInt (max : Nat) (c : UInt8) (src : List UInt8) : FlexRes :=
  if c.toNat &&& max = max then getFlexible max 0 src else .done (c.toNat &&& max) src

lemma length_conts_le_two (n : Nat) : (conts n).length ≤ 2 ↔ n < 2 ^ 14 := by
  by_cases hn : 127 < n
  · rw [conts_of_gt hn, length_cons]
    by_cases hn' : 127 < n / 128
    · have hpos := length_conts_pos (n / 128 / 128)
      rw [conts_of_gt hn', length_cons]
      omega
    · rw [conts_of_le (by omega), length_singleton]
      omega
  · rw [conts_of_le (by omega), length_singleton]
    omega

theorem writeInt_fits_iff (index max mask : Nat) :
    (writeInt index max mask).length ≤ hpackMaxInt ↔ index < max + 2 ^ 14 := by
  have hthree : hpackMaxInt = 3 := rfl
  rw [hthree, writeInt]
  split
  · rw [length_singleton]
    omega
  · have htwo := length_conts_le_two (index - max)
    rw [length_cons]
    omega

/-- A value of 16511 bytes -/
theorem long_value_does_not_fit : ¬ (writeInt 16511 0x7F 0).length ≤ hpackMaxInt := by
  decide +kernel

variable {fuel n x m k p y v : Nat} {src e bs d : List UInt8} {c : UInt8} {o : Bool}
  {l : List (Bool × UInt8)} {ds : List (List UInt8)} {P : List (Bool × UInt8) → Prop}

lemma intSizeLoop_eq (size : Nat) (h : n ≤ fuel) :
    intSizeLoop fuel (size + 1) n = size + (conts n).length := by
  induction fuel generalizing size n with
  | zero =>
    obtain rfl : n = 0 := by omega
    rfl
  | succ fuel ih =>
    rw [intSizeLoop]
    by_cases hn : 127 < n
    · have hseven : n >>> 7 = n / 128 := Nat.shiftRight_eq_div_pow n 7
      rw [if_pos hn, hseven, ih (size + 1) (by omega), conts_of_gt hn, length_cons]
      omega
    · rw [if_neg hn, conts_of_le (by omega), length_singleton]

/-- The bytes of `n` at the shift `m` are read to the end. -/
theorem getFlexible_conts (rest : List UInt8) (hm : m < 32) (h : x + n * 2 ^ m ≤ hpackLimit) :
    getFlexible x m (conts n ++ rest) = .done (x + n * 2 ^ m) rest := by
  have hlimit : hpackLimit = 2 ^ 20 := rfl
  induction n using Nat.strongRecOn generalizing x m with
  | ind n ih =>
    by_cases hn : 127 < n
    · have hpow : 2 ^ (m + 7) = 2 ^ m * 128 := Nat.pow_add 2 m 7
      have hdigit : n % 128 * 2 ^ m + n / 128 * 2 ^ (m + 7) = n * 2 ^ m := by
        rw [hpow]
        conv_rhs => rw [← Nat.mod_add_div n 128]
        ring
      have hnext : m + 7 < 32 := by
        have hle : 2 ^ (m + 7) ≤ 2 ^ 20 := by
          have hone := Nat.mul_le_mul_right (2 ^ (m + 7)) (show 1 ≤ n / 128 by omega)
          omega
        have := (Nat.pow_le_pow_iff_right (by decide : 1 < 2)).mp hle
        omega
      rw [conts_of_gt hn, cons_append, getFlexible, if_neg (by omega),
        toNat_ofNat_lt (by omega), Nat.add_mod_right, Nat.mod_mod, Nat.shiftLeft_eq,
        Nat.mod_eq_of_lt (by omega)]
      rw [if_neg (by omega), if_pos (by omega), ih (n / 128) (by omega) hnext (by omega),
        Nat.add_assoc, hdigit]
    · have hbyte : (UInt8.ofNat n).toNat = n := toNat_ofNat_lt (by omega)
      rw [conts_of_le (by omega), singleton_append, getFlexible, if_neg (by omega), hbyte,
        Nat.mod_eq_of_lt (by omega : n < 128), Nat.shiftLeft_eq, Nat.mod_eq_of_lt (by omega)]
      rw [if_neg (by omega), if_neg hn]

/-- The values of `max` and `mask` that `write_int` is called with -/
def intPrefixes : List (Nat × Nat) := [(0x7F, 0), (0x7F, 0x80), (0x3F, 0x40), (0x0F, 0)]

lemma prefix_bits :
    ∀ x ∈ intPrefixes, ∀ v ≤ x.1, (UInt8.ofNat (v ||| x.2)).toNat &&& x.1 = v := by
  decide +kernel

theorem writeInt_read {v : Nat} {x : Nat × Nat} (hx : x ∈ intPrefixes) (hv : v ≤ hpackLimit) :
    (writeInt v x.1 x.2).length = tfwHpackIntSize v x.1 ∧
      ∃ c bs, writeInt v x.1 x.2 = c :: bs ∧ ∀ rest, readInt x.1 c (bs ++ rest) = .done v rest := by
  have hbits := prefix_bits x hx
  rw [writeInt, tfwHpackIntSize]
  by_cases hlt : v < x.1
  · rw [if_pos hlt, if_pos hlt]
    refine ⟨rfl, _, _, rfl, fun rest => ?_⟩
    rw [readInt, hbits v hlt.le, if_neg hlt.ne, nil_append]
  · rw [if_neg hlt, if_neg hlt]
    refine ⟨?_, _, _, rfl, fun rest => ?_⟩
    · rw [intSizeLoop_eq 1 (Nat.le_refl _), length_cons, Nat.add_comm]
    · have hsum : x.1 + (v - x.1) * 2 ^ 0 = v := by omega
      rw [readInt, hbits x.1 (Nat.le_refl _), if_pos rfl,
        getFlexible_conts rest (by decide) (by rw [hsum]; exact hv), hsum]

theorem writeInt_read_limit :
    (writeInt hpackLimit 0x0F 0).length = tfwHpackIntSize hpackLimit 0x0F ∧
      ∃ c bs, writeInt hpackLimit 0x0F 0 = c :: bs ∧
        ∀ rest, readInt 0x0F c (bs ++ rest) = .done hpackLimit rest :=
  writeInt_read (x := (0x0F, 0)) (by decide) (Nat.le_refl _)

/-- The bytes up to the last one of the integer, over the integers -/
def contsValue : List UInt8 → Nat
  | [] => 0
  | c :: src => c.toNat % 128 + 128 * if 127 < c.toNat then contsValue src else 0

/-- What is read from the shift `m` on is the number that the bytes stand for. -/
def Exact (x m : Nat) (src : List UInt8) : Prop :=
  ∀ v rest, getFlexible x m src = .done v rest → v = x + contsValue src * 2 ^ m

/-- Behind `k` bytes that are within the limit the integer ends with a byte that is not zero
but for the bits that are shifted out at 28. -/
def Wraps (k x m : Nat) (src : List UInt8) : Prop :=
  ∃ init c rest, src = init ++ c :: rest ∧ init.length = k ∧ (∀ b ∈ init, 127 < b.toNat) ∧
    x + contsValue init * 2 ^ m ≤ hpackLimit ∧ c.toNat ≤ 127 ∧ 0 < c.toNat ∧ c.toNat % 16 = 0

/-- The bits of a byte at their place, in 32 bits -/
def group (c : UInt8) (m : Nat) : Nat := ((c.toNat % 128) <<< m) % 2 ^ 32

lemma group_eq (c : UInt8) (hm : m ≤ 25) : group c m = c.toNat % 128 * 2 ^ m := by
  have hpow : 2 ^ m ≤ 2 ^ 25 := Nat.pow_le_pow_right (by decide) hm
  have hlt : c.toNat % 128 * 2 ^ m ≤ 127 * 2 ^ m := Nat.mul_le_mul_right _ (by omega)
  rw [group, Nat.shiftLeft_eq, Nat.mod_eq_of_lt (by omega)]

lemma getFlexible_cons (x : Nat) (c : UInt8) (src : List UInt8) (hm : m < 32) :
    getFlexible x m (c :: src) =
      if hpackLimit < x + group c m then .drop
      else if 127 < c.toNat then getFlexible (x + group c m) (m + 7) src
      else .done (x + group c m) src := by
  rw [getFlexible, if_neg (by omega)]
  rfl

lemma contsValue_cons (hc : 127 < c.toNat) :
    contsValue (c :: src) * 2 ^ m = c.toNat % 128 * 2 ^ m + contsValue src * 2 ^ (m + 7) := by
  rw [contsValue, if_pos hc, Nat.pow_add]
  ring

lemma exact_cons (hm : m ≤ 21) :
    Exact x m (c :: src) ↔
      (127 < c.toNat → x + group c m ≤ hpackLimit → Exact (x + group c m) (m + 7) src) := by
  have hgroup := group_eq c (show m ≤ 25 by omega)
  rw [Exact, getFlexible_cons x c src (by omega)]
  by_cases hlim : hpackLimit < x + group c m
  · rw [if_pos hlim]
    exact ⟨fun _ _ hle => absurd hlim (by omega), fun _ v rest h => nomatch h⟩
  rw [if_neg hlim]
  by_cases hc : 127 < c.toNat
  · rw [if_pos hc, contsValue_cons hc, ← Nat.add_assoc, ← hgroup]
    exact ⟨fun h _ _ => h, fun h => h hc (by omega)⟩
  · rw [if_neg hc]
    refine ⟨fun _ hc' => absurd hc' hc, fun _ v rest h => ?_⟩
    rw [contsValue, if_neg hc, Nat.mul_zero, Nat.add_zero, ← hgroup]
    injection h with hv
    exact hv.symm

lemma exact_last (hx : x ≤ hpackLimit) :
    Exact x 28 (c :: src) ↔ ¬ (c.toNat ≤ 127 ∧ 0 < c.toNat ∧ c.toNat % 16 = 0) := by
  have hlimit : hpackLimit = 2 ^ 20 := rfl
  have hgroup : group c 28 = c.toNat % 16 * 2 ^ 28 := by
    rw [group, Nat.shiftLeft_eq]
    omega
  rw [Exact, getFlexible_cons x c src (by decide)]
  by_cases hlim : hpackLimit < x + group c 28
  · rw [if_pos hlim]
    exact ⟨fun _ => by omega, fun _ v rest h => nomatch h⟩
  rw [if_neg hlim]
  by_cases hc : 127 < c.toNat
  · rw [if_pos hc]
    refine ⟨fun _ => by omega, fun _ v rest h => ?_⟩
    cases src with
    | nil => nomatch h
    | cons d src => nomatch h
  · rw [if_neg hc, contsValue, if_neg hc, Nat.mul_zero, Nat.add_zero]
    constructor
    · intro h
      have hv := h (x + group c 28) src rfl
      omega
    · intro h v rest hdone
      obtain ⟨hv, -⟩ := FlexRes.done.inj hdone
      omega

lemma wraps_cons (hm : m ≤ 21) :
    Wraps (k + 1) x m (c :: src) ↔
      127 < c.toNat ∧ x + group c m ≤ hpackLimit ∧ Wraps k (x + group c m) (m + 7) src := by
  have hgroup := group_eq c (show m ≤ 25 by omega)
  constructor
  · rintro ⟨_ | ⟨b, init⟩, d, rest, hsrc, hlen, hinit, hsum, hd⟩
    · cases hlen
    · injection hsrc with hb hsrc
      subst hb
      obtain ⟨hb, hinit⟩ := forall_mem_cons.mp hinit
      rw [contsValue_cons hb, ← Nat.add_assoc, ← hgroup] at hsum
      exact ⟨hb, by omega, init, d, rest, hsrc, Nat.succ.inj hlen, hinit, hsum, hd⟩
  · rintro ⟨hc, -, init, d, rest, rfl, hlen, hinit, hsum, hd⟩
    refine ⟨c :: init, d, rest, rfl, by rw [length_cons, hlen], forall_mem_cons.mpr ⟨hc, hinit⟩,
      ?_, hd⟩
    rw [contsValue_cons hc, ← Nat.add_assoc, ← hgroup]
    exact hsum

lemma wraps_zero (hx : x ≤ hpackLimit) :
    Wraps 0 x m (c :: src) ↔ c.toNat ≤ 127 ∧ 0 < c.toNat ∧ c.toNat % 16 = 0 := by
  constructor
  · rintro ⟨init, d, rest, hsrc, hlen, -, -, hd⟩
    rw [length_eq_zero_iff.mp hlen] at hsrc
    injection hsrc with hb
    rw [hb]
    exact hd
  · intro hd
    refine ⟨[], c, src, rfl, rfl, fun b hb => absurd hb not_mem_nil, ?_, hd⟩
    rw [contsValue, Nat.zero_mul]
    exact hx

lemma not_wraps_nil : ¬ Wraps k x m [] := by
  rintro ⟨init, c, rest, hsrc, -⟩
  exact absurd hsrc.symm (append_ne_nil_of_right_ne_nil init (cons_ne_nil c rest))

/-- One byte after the other, up to the shift by 28 -/
theorem exact_iff_not_wraps (hm : m + 7 * k = 28) (hx : k = 0 → x ≤ hpackLimit) :
    Exact x m src ↔ ¬ Wraps k x m src := by
  induction k generalizing x m src with
  | zero =>
    obtain rfl : m = 28 := by omega
    cases src with
    | nil => exact ⟨fun _ => not_wraps_nil, fun _ v rest h => nomatch h⟩
    | cons c src => rw [exact_last (hx rfl), wraps_zero (hx rfl)]
  | succ k ih =>
    cases src with
    | nil => exact ⟨fun _ => not_wraps_nil, fun _ v rest h => nomatch h⟩
    | cons c src =>
      rw [exact_cons (by omega), wraps_cons (by omega), not_and, not_and]
      exact forall_congr' fun hc => forall_congr' fun hle => ih (by omega) fun _ => hle

theorem getFlexible_exact_iff (p : Nat) (src : List UInt8) : Exact p 0 src ↔ ¬ Wraps 4 p 0 src :=
  exact_iff_not_wraps rfl fun h => nomatch h

/-- The bytes of `127 + 2 ^ 32` are read as `127`. -/
theorem wrapped_value_accepted :
    getFlexible 127 0 [0x80, 0x80, 0x80, 0x80, 0x10] = .done 127 [] ∧
      contsValue [0x80, 0x80, 0x80, 0x80, 0x10] = 2 ^ 32 ∧
      ¬ Exact 127 0 [0x80, 0x80, 0x80, 0x80, 0x10] := by
  refine ⟨by decide, by decide, fun h => ?_⟩
  have hv := h 127 [] (by decide)
  revert hv
  decide

inductive IntRes where
  | value (x : Nat)
  | drop
  | undefined
  deriving DecidableEq, Repr

/-- The integer and the shift that are kept for the next buffer, or the result -/
def FlexRes.next : FlexRes → (Nat × Nat) ⊕ IntRes
  | .done x _ => .inr (.value x)
  | .more x m => .inl (x, m)
  | .drop => .inr .drop
  | .undefined => .inr .undefined

/-- `GET_FLEXIBLE` on the buffer `d`, which may end with the first byte, and `GET_CONTINUE` on
the buffers `ds` -/
def readPieces (p : Nat) (d : List UInt8) (ds : List (List UInt8)) : (Nat × Nat) ⊕ IntRes :=
  match (getFlexible p 0 d).next with
  | .inl s => feed (fun s e => (getContinue s.1 s.2 e).next) s ds
  | .inr r => .inr r

/-- All ways to cut the bytes into buffers have one result. -/
def CutAlike (p : Nat) (bs : List UInt8) : Prop :=
  ∃ r ≠ IntRes.undefined, ∀ d ds, (∀ e ∈ ds, e ≠ []) → d ++ ds.flatten = bs →
    readPieces p d ds = .inr r

/-- The bytes are those of one integer. -/
def Complete : List UInt8 → Prop
  | [] => False
  | c :: bs => if 127 < c.toNat then Complete bs else bs = []

/-- A byte stands for the limit or more. -/
def Large (m : Nat) : List UInt8 → Prop
  | [] => False
  | c :: bs => m < 32 ∧ (hpackLimit ≤ group c m ∨ Large (m + 7) bs)

/-- No byte has its lowest bit set where the sum before it has a carry. -/
def Clear (x m : Nat) : List UInt8 → Prop
  | [] => True
  | c :: bs => ¬ (2 ^ m ≤ x ∧ c.toNat % 2 = 1) ∧ Clear (x + group c m) (m + 7) bs

/-- A byte that is added, or or-ed -/
def put (o : Bool) (x y : Nat) : Nat := if o then y ||| x else x + y

/-- One byte, with how it is put to the others -/
def intStep (s : Nat × Nat) (b : Bool × UInt8) : (Nat × Nat) ⊕ IntRes :=
  if 32 ≤ s.2 then .inr .undefined
  else
    let x := put b.1 s.1 (group b.2 s.2)
    if hpackLimit < x then .inr .drop
    else if 127 < b.2.toNat then .inl (x, s.2 + 7)
    else .inr (.value x)

lemma scan_intStep :
    scan intStep (x, m) ((o, c) :: l) =
      if 32 ≤ m then .inr .undefined
      else if hpackLimit < put o x (group c m) then .inr .drop
      else if 127 < c.toNat then scan intStep (put o x (group c m), m + 7) l
      else .inr (.value (put o x (group c m))) := by
  rw [scan, intStep]
  by_cases hm : 32 ≤ m
  · rw [if_pos hm, if_pos hm]
  rw [if_neg hm, if_neg hm]
  by_cases hlim : hpackLimit < put o x (group c m)
  · rw [if_pos hlim, if_pos hlim]
  rw [if_neg hlim, if_neg hlim]
  by_cases hc : 127 < c.toNat
  · rw [if_pos hc, if_pos hc]
  · rw [if_neg hc, if_neg hc]

lemma getLen_next (o : Bool) (x m : Nat) (src : List UInt8) :
    (getLen (put o) x m src).next = scan intStep (x, m) (src.map (o, ·)) := by
  induction src generalizing x m with
  | nil => rfl
  | cons c src ih =>
    rw [getLen, map_cons, scan_intStep, group]
    split
    · rfl
    · dsimp only
      split
      · rfl
      · split
        · exact ih _ _
        · rfl

/-- The bytes of one call of `GET_CONTINUE` -/
def marked : List UInt8 → List (Bool × UInt8)
  | [] => []
  | c :: e => (false, c) :: e.map (true, ·)

lemma getContinue_next (x m : Nat) (he : e ≠ []) :
    (getContinue x m e).next = scan intStep (x, m) (marked e) := by
  cases e with
  | nil => exact absurd rfl he
  | cons c e =>
    have hput : put false x (group c m) = x + ((c.toNat % 128) <<< m) % 2 ^ 32 := rfl
    rw [getContinue, marked, scan_intStep, hput]
    split
    · rfl
    · dsimp only
      split
      · rfl
      · split
        · rw [getContinueFrom_eq]
          exact getLen_next true _ _ e
        · rfl

lemma feed_continue (s : Nat × Nat) (h : ∀ e ∈ ds, e ≠ []) :
    feed (fun s e => (getContinue s.1 s.2 e).next) s ds = scan intStep s (ds.flatMap marked) := by
  induction ds generalizing s with
  | nil => rfl
  | cons e ds ih =>
    obtain ⟨he, hds⟩ := forall_mem_cons.mp h
    rw [feed, flatMap_cons, scan_append, getContinue_next s.1 s.2 he]
    cases hs : scan intStep (s.1, s.2) (marked e) with
    | inl s' => exact ih s' hds
    | inr r => rfl

lemma readPieces_eq (p : Nat) (d : List UInt8) (h : ∀ e ∈ ds, e ≠ []) :
    readPieces p d ds = scan intStep (p, 0) (d.map (false, ·) ++ ds.flatMap marked) := by
  rw [readPieces, scan_append, getFlexible_eq, ← getLen_next]
  show (match (getLen (put false) p 0 d).next with | .inl s => _ | .inr r => _) = _
  cases (getLen (put false) p 0 d).next with
  | inl s => exact feed_continue s h
  | inr r => rfl

lemma map_snd_marked (e : List UInt8) : (marked e).map Prod.snd = e := by
  cases e with
  | nil => rfl
  | cons c e => rw [marked, map_cons, map_map]; exact congrArg _ (map_id e)

lemma map_snd_flatMap : (ds.flatMap marked).map Prod.snd = ds.flatten := by
  rw [map_flatMap, ← flatMap_id]
  exact congrArg (flatMap · ds) (funext map_snd_marked)

/-- The first byte is added wherever the cuts are. -/
theorem readPieces_first (h : ∀ e ∈ ds, e ≠ []) (hbs : d ++ ds.flatten = c :: bs) :
    ∃ l, l.map Prod.snd = bs ∧ readPieces p d ds = scan intStep (p, 0) ((false, c) :: l) := by
  rw [readPieces_eq p d h]
  cases d with
  | cons b d =>
    injection hbs with hb hbs
    refine ⟨d.map (false, ·) ++ ds.flatMap marked, ?_, by rw [hb]; rfl⟩
    rw [map_append, map_map, map_snd_flatMap, ← hbs]
    exact congrArg (· ++ _) (map_id d)
  | nil =>
    cases ds with
    | nil => cases hbs
    | cons e ds =>
      cases e with
      | nil => exact absurd rfl (h [] mem_cons_self)
      | cons b e =>
        injection hbs with hb hbs
        refine ⟨e.map (true, ·) ++ ds.flatMap marked, ?_, by rw [hb]; rfl⟩
        rw [map_append, map_map, map_snd_flatMap, ← hbs]
        exact congrArg (· ++ _) (map_id e)

/-- Below the width of the shift a byte is a digit at its place. -/
theorem group_digit (c : UInt8) (hm : m < 32) :
    ∃ d ≤ 127, group c m = d <<< m ∧ d % 2 = c.toNat % 2 := by
  have hpow : 2 ^ 32 = 2 ^ m * 2 ^ (32 - m) := by
    rw [← Nat.pow_add, Nat.add_sub_cancel' hm.le]
  have htwo : 2 ∣ 2 ^ (32 - m) := dvd_pow_self 2 (by omega)
  refine ⟨c.toNat % 128 % 2 ^ (32 - m), ?_, ?_, ?_⟩
  · exact (Nat.mod_le _ _).trans (by omega)
  · rw [group, Nat.shiftLeft_eq, Nat.shiftLeft_eq, hpow, Nat.mul_comm, Nat.mul_mod_mul_left,
      Nat.mul_comm]
  · rw [Nat.mod_mod_of_dvd _ htwo]
    omega

lemma or_group (hm : m < 32) (hx : x < 2 * 2 ^ m) :
    (2 ^ m ≤ x ∧ c.toNat % 2 = 1 ∧ (group c m ||| x) + 2 ^ m = group c m + x) ∨
      ¬ (2 ^ m ≤ x ∧ c.toNat % 2 = 1) ∧ (group c m ||| x) = group c m + x := by
  obtain ⟨d, -, hd, hpar⟩ := group_digit c hm
  have hor := or_shiftLeft (d := d) hx
  rw [hd, hor, hpar, Nat.shiftLeft_eq]
  by_cases h : 2 ^ m ≤ x ∧ c.toNat % 2 = 1
  · rw [if_pos h]
    exact .inl ⟨h.1, h.2, by omega⟩
  · rw [if_neg h]
    exact .inr ⟨h, rfl⟩

lemma put_le (hm : m < 32) (hx : x < 2 * 2 ^ m) : put o x (group c m) ≤ x + group c m := by
  cases o with
  | false => exact Nat.le_refl _
  | true =>
    show (group c m ||| x) ≤ _
    obtain ⟨-, -, h⟩ | ⟨-, h⟩ := or_group (c := c) hm hx
    · omega
    · omega

lemma put_lt (hm : m < 32) (hx : x < 2 * 2 ^ m) :
    put o x (group c m) < 2 * 2 ^ (m + 7) := by
  obtain ⟨d, hd, hgroup, -⟩ := group_digit c hm
  have hle := put_le (o := o) (c := c) hm hx
  have hdigit : d * 2 ^ m ≤ 127 * 2 ^ m := Nat.mul_le_mul_right _ hd
  rw [hgroup, Nat.shiftLeft_eq] at hle
  rw [hgroup, Nat.shiftLeft_eq, Nat.pow_add]
  omega

lemma put_of_clear (hm : m < 32) (hx : x < 2 * 2 ^ m) (hc : ¬ (2 ^ m ≤ x ∧ c.toNat % 2 = 1)) :
    put o x (group c m) = x + group c m := by
  cases o with
  | false => rfl
  | true =>
    obtain ⟨h, h', -⟩ | ⟨-, h⟩ := or_group (c := c) hm hx
    · exact absurd ⟨h, h'⟩ hc
    · exact h.trans (Nat.add_comm _ _)

lemma put_pos (hx : 0 < x) : 0 < put o x y := by
  cases o with
  | false => exact Nat.add_pos_left hx y
  | true => exact hx.trans_le Nat.right_le_or

/-- A byte that stands for the limit is too large with what is there. -/
theorem limit_lt_put (hm : m < 32) (hseven : m % 7 = 0) (h0 : 0 < x) (hx : x < 2 * 2 ^ m)
    (h : hpackLimit ≤ group c m) : hpackLimit < put o x (group c m) := by
  have hlimit : hpackLimit = 2 ^ 20 := rfl
  cases o with
  | false =>
    show _ < x + _
    omega
  | true =>
    show _ < (group c m ||| x)
    obtain ⟨d, -, hgroup, hpar⟩ := group_digit c hm
    rw [Nat.shiftLeft_eq] at hgroup
    obtain ⟨hle, hodd, heq⟩ | ⟨-, heq⟩ := or_group (c := c) hm hx
    · have hne : group c m ≠ hpackLimit := by
        rw [hgroup, hlimit]
        obtain rfl | rfl | rfl | rfl | rfl :
            m = 0 ∨ m = 7 ∨ m = 14 ∨ m = 21 ∨ m = 28 := by omega
        all_goals omega
      omega
    · omega

section Runs
/-- Whichever bytes are or-ed, the result is the same one. -/
def Alike (x m : Nat) (bs : List UInt8) : Prop :=
  ∃ r ≠ IntRes.undefined, ∀ l : List (Bool × UInt8), l.map Prod.snd = bs →
    scan intStep (x, m) l = .inr r

lemma forall_map_cons (h : ∀ o l, l.map Prod.snd = bs → P ((o, c) :: l)) :
    ∀ l : List (Bool × UInt8), l.map Prod.snd = c :: bs → P l := by
  rintro (_ | ⟨⟨o, b⟩, l⟩) hl
  · cases hl
  · injection hl with hb hl
    subst hb
    exact h o l hl

lemma scan_of_large (hseven : m % 7 = 0) (h0 : 0 < x) (hx : x < 2 * 2 ^ m) (hbs : Complete bs)
    (h : Large m bs) :
    ∀ l : List (Bool × UInt8), l.map Prod.snd = bs → scan intStep (x, m) l = .inr .drop := by
  induction bs generalizing x m with
  | nil => exact hbs.elim
  | cons c bs ih =>
    refine forall_map_cons fun o l hl => ?_
    obtain ⟨hm, h⟩ := h
    rw [scan_intStep, if_neg (by omega)]
    split
    case isTrue hlim => rfl
    case isFalse hlim =>
      replace h := h.resolve_left fun h => hlim (limit_lt_put hm hseven h0 hx h)
      rw [Complete] at hbs
      split at hbs
      case isTrue hc =>
        rw [if_pos hc]
        exact ih (by omega) (put_pos h0) (put_lt hm hx) hbs h l hl
      case isFalse hc =>
        rw [hbs] at h
        exact h.elim

lemma alike_of_clear (hx : x < 2 * 2 ^ m) (hbs : Complete bs) (hlen : m + 7 * bs.length < 39)
    (h : Clear x m bs) : Alike x m bs := by
  induction bs generalizing x m with
  | nil => exact hbs.elim
  | cons c bs ih =>
    rw [length_cons] at hlen
    have hm : m < 32 := by omega
    have hput : ∀ o, put o x (group c m) = x + group c m := fun o => put_of_clear hm hx h.1
    by_cases hlim : hpackLimit < x + group c m
    · refine ⟨.drop, nofun, forall_map_cons fun o l hl => ?_⟩
      rw [scan_intStep, if_neg (by omega), hput, if_pos hlim]
    rw [Complete] at hbs
    by_cases hc : 127 < c.toNat
    · rw [if_pos hc] at hbs
      have hlt : x + group c m < 2 * 2 ^ (m + 7) := put_lt (o := false) hm hx
      obtain ⟨r, hr, hscan⟩ := ih hlt hbs (by omega) h.2
      refine ⟨r, hr, forall_map_cons fun o l hl => ?_⟩
      rw [scan_intStep, if_neg (by omega), hput, if_neg hlim, if_pos hc]
      exact hscan l hl
    · refine ⟨.value (x + group c m), nofun, forall_map_cons fun o l hl => ?_⟩
      rw [scan_intStep, if_neg (by omega), hput, if_neg hlim, if_neg hc]

variable {r : IntRes}

/-- Without a byte of the limit or more nothing is dropped if all bytes are or-ed. -/
theorem scan_or (hx : x < hpackLimit) (hbs : Complete bs) (h : ¬ Large m bs) (hr : r ≠ .undefined)
    (hscan : scan intStep (x, m) (bs.map (true, ·)) = .inr r) :
    m + 7 * bs.length < 39 ∧ ∃ v, r = .value v := by
  induction bs generalizing x m with
  | nil => exact hbs.elim
  | cons c bs ih =>
    rw [length_cons]
    by_cases hm : m < 32
    · have hno := not_or.mp fun h' => h ⟨hm, h'⟩
      have hor : put true x (group c m) < hpackLimit :=
        Nat.or_lt_two_pow (n := 20) (not_le.mp hno.1) hx
      rw [map_cons, scan_intStep, if_neg (by omega), if_neg (by omega)] at hscan
      rw [Complete] at hbs
      by_cases hc : 127 < c.toNat
      · rw [if_pos hc] at hscan hbs
        obtain ⟨hlen, hv⟩ := ih hor hbs hno.2 hscan
        exact ⟨by omega, hv⟩
      · rw [if_neg hc] at hscan hbs
        rw [hbs, length_nil]
        exact ⟨by omega, _, (Sum.inr.inj hscan).symm⟩
    · rw [map_cons, scan_intStep, if_pos (by omega)] at hscan
      exact absurd (Sum.inr.inj hscan).symm hr

/-- What is lost when a byte is or-ed is never made up for. -/
theorem clear_of_scan_eq (hy : y < 2 * 2 ^ m) (hxy : x ≤ y) (hbs : Complete bs)
    (hor : scan intStep (x, m) (bs.map (true, ·)) = .inr (.value v))
    (hadd : scan intStep (y, m) (bs.map (false, ·)) = .inr (.value v)) : x = y ∧ Clear y m bs := by
  induction bs generalizing x y m with
  | nil => exact hbs.elim
  | cons c bs ih =>
    by_cases hm : m < 32
    · rw [map_cons, scan_intStep, if_neg (by omega)] at hor hadd
      have hx : x < 2 * 2 ^ m := by omega
      have hle : put true x (group c m) ≤ y + group c m :=
        (put_le hm hx).trans (Nat.add_le_add_right hxy _)
      have hback : put true x (group c m) = y + group c m →
          x = y ∧ ¬ (2 ^ m ≤ y ∧ c.toNat % 2 = 1) := by
        intro heq
        have hdef : put true x (group c m) = (group c m ||| x) := rfl
        obtain ⟨-, -, h⟩ | ⟨hc, h⟩ := or_group (c := c) hm hx
        · omega
        · obtain rfl : x = y := by omega
          exact ⟨rfl, hc⟩
      have hnor : ¬ hpackLimit < put true x (group c m) := fun hlim => by
        rw [if_pos hlim] at hor
        cases hor
      have hnadd : ¬ hpackLimit < put false y (group c m) := fun hlim => by
        rw [if_pos hlim] at hadd
        cases hadd
      rw [if_neg hnor] at hor
      rw [if_neg hnadd] at hadd
      rw [Complete] at hbs
      by_cases hc : 127 < c.toNat
      · rw [if_pos hc] at hor hadd hbs
        obtain ⟨heq, hclear⟩ := ih (put_lt (o := false) hm hy) hle hbs hor hadd
        exact ⟨(hback heq).1, (hback heq).2, hclear⟩
      · rw [if_neg hc] at hor hadd hbs
        have heq := IntRes.value.inj (Sum.inr.inj (hor.trans hadd.symm))
        exact ⟨(hback heq).1, (hback heq).2, by rw [hbs]; trivial⟩
    · rw [map_cons, scan_intStep, if_pos (by omega)] at hor
      cases hor

end Runs

lemma scan_first (hp : p < 128) (l : List (Bool × UInt8)) :
    scan intStep (p, 0) ((false, c) :: l) =
      if 127 < c.toNat then scan intStep (p + c.toNat % 128, 7) l
      else .inr (.value (p + c.toNat % 128)) := by
  have hlimit : hpackLimit = 2 ^ 20 := rfl
  have hput : put false p (group c 0) = p + c.toNat % 128 := by
    rw [put, group_eq c (by decide), Nat.pow_zero, Nat.mul_one]
    rfl
  rw [scan_intStep, if_neg (by decide), hput, if_neg (by omega)]

lemma large_or_clear (hp : p < 128) (hc : 127 < c.toNat) (hbs : Complete bs)
    (h : CutAlike p (c :: bs)) : Large 7 bs ∨ bs.length ≤ 4 ∧ Clear (p + c.toNat % 128) 7 bs := by
  have hlimit : hpackLimit = 2 ^ 20 := rfl
  obtain ⟨r, hr, hcut⟩ := h
  rw [or_iff_not_imp_left]
  intro hlarge
  have hnil : ∀ e ∈ ([] : List (List UInt8)), e ≠ [] := nofun
  have hone : ∀ e ∈ [c :: bs], e ≠ [] := forall_mem_singleton.mpr (cons_ne_nil c bs)
  have hadd := hcut (c :: bs) [] hnil (append_nil _)
  have hor := hcut [] [c :: bs] hone (append_nil _)
  rw [readPieces_eq _ _ hnil, flatMap_nil, append_nil, map_cons, scan_first hp, if_pos hc] at hadd
  rw [readPieces_eq _ _ hone, map_nil, nil_append, flatMap_singleton, marked, scan_first hp,
    if_pos hc] at hor
  obtain ⟨hlen, v, rfl⟩ := scan_or (by omega) hbs hlarge hr hor
  exact ⟨by omega, (clear_of_scan_eq (by omega) (Nat.le_refl _) hbs hor hadd).2⟩

theorem cutAlike_iff (hp : 0 < p) (hp' : p < 128) (h : Complete (c :: bs)) :
    CutAlike p (c :: bs) ↔
      Large 7 bs ∨ bs.length ≤ 4 ∧ Clear (p + c.toNat % 128) 7 bs := by
  rw [Complete] at h
  by_cases hc : 127 < c.toNat
  · rw [if_pos hc] at h
    refine ⟨large_or_clear hp' hc h, fun hcond => ?_⟩
    have halike : Alike (p + c.toNat % 128) 7 bs := by
      obtain hlarge | ⟨hlen, hclear⟩ := hcond
      · exact ⟨.drop, nofun, scan_of_large rfl (by omega) (by omega) h hlarge⟩
      · exact alike_of_clear (by omega) h (by omega) hclear
    obtain ⟨r, hr, hscan⟩ := halike
    refine ⟨r, hr, fun d ds hds hbs => ?_⟩
    obtain ⟨l, hl, hread⟩ := readPieces_first hds hbs
    rw [hread, scan_first hp', if_pos hc]
    exact hscan l hl
  · rw [if_neg hc] at h
    subst h
    refine iff_of_true ⟨.value (p + c.toNat % 128), nofun, fun d ds hds hbs => ?_⟩
      (.inr ⟨Nat.zero_le 4, trivial⟩)
    obtain ⟨l, -, hread⟩ := readPieces_first hds hbs
    rw [hread, scan_first hp', if_neg hc]

theorem cutAlike_zero_group : CutAlike 127 [0x80, 0x02] := by
  have h : Complete [0x80, 0x02] := by simp [Complete]
  exact (cutAlike_iff (by decide) (by decide) h).mpr (.inr ⟨by decide, by decide, trivial⟩)

/-- The bytes of 256, cut behind the first byte, are read as 128. -/
theorem carry_lost : readPieces 127 [0x81, 0x01] [] = .inr (.value 256) ∧
    readPieces 127 [] [[0x81, 0x01]] = .inr (.value 128) ∧ ¬ CutAlike 127 [0x81, 0x01] := by
  refine ⟨by decide, by decide, ?_⟩
  rintro ⟨r, -, h⟩
  have hadd : _ = Sum.inr r := h [0x81, 0x01] [] nofun rfl
  have hor : _ = Sum.inr r := h [] [[0x81, 0x01]] (by decide) rfl
  have heq := hadd.trans hor.symm
  revert heq
  decide

end Tempesta.Hpack
