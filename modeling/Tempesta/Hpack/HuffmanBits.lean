import Tempesta.Hpack.HuffmanDecode
import Tempesta.Lib.Bits

/-!
Huffman decoding on bit strings. The loops of the decoder look up the next bits of
a string in the tables; what is in `hctx`, how far it has been read and which bytes
are still to come matters only through the bits that follow.
-/

namespace Tempesta.Hpack

open List IterLib BitLib HuffmanState

def byteBits (src : List UInt8) : List Bool :=
  src.flatMap fun c => bits 8 c.toNat

variable {src src' out : List UInt8} {need : Bool} {hp hp' : HuffmanCtx} {s s' : HuffmanState}
  {c j l : Int} {n k later offset i m : Nat}

lemma length_byteBits : (byteBits src).length = 8 * src.length := by
  induction src with
  | nil => rfl
  | cons c src ih =>
    rw [byteBits, flatMap_cons, length_append, length_bits, length_cons]
    unfold byteBits at ih
    omega

/-- A walk through the tables: the table it is in, the bits in front of it and the
symbols that it has passed. -/
structure BitState where
  offset : Nat
  bits : List Bool
  out : List UInt8
  deriving DecidableEq, Repr

inductive BitStop where
  | wait (s : BitState)
  | drop (out : List UInt8)
  deriving DecidableEq, Repr

/-- One lookup. A table with seven index bits is entered only with eight bits at
hand. -/
def bitStep (s : BitState) : BitState ⊕ BitStop :=
  if s.offset < htSmall then
    if s.bits.length ≤ htNBits then
      .inr (.wait s)
    else
      let e := htEntry (s.offset + value (s.bits.take htNBits))
      if 0 < e.shift then
        .inl ⟨0, s.bits.drop e.shift.toNat, s.out ++ [e.symbol]⟩
      else if e.shift < 0 ∧ e.offset ≠ 0 then
        .inl ⟨e.offset.toNat, s.bits.drop (-e.shift).toNat, s.out⟩
      else
        .inr (.drop s.out)
  else if s.bits.length < htMBits then
    .inr (.wait s)
  else
    let e := htEntry (s.offset + value (s.bits.take htMBits))
    if 0 < e.shift then
      .inl ⟨0, s.bits.drop (e.shift - (htNBits - htMBits)).toNat, s.out ++ [e.symbol]⟩
    else
      .inr (.drop s.out)

def HuffmanState.toBits (s : HuffmanState) : BitState :=
  ⟨s.offset, bits (s.hp.curr + htNBits).toNat s.hp.hctx ++ byteBits s.src, s.out⟩

def HuffmanStop.toBits : HuffmanStop → BitStop
  | .noBytes hp offset out =>
    .wait ⟨offset, bits (hp.curr + if offset < htSmall then htNBits else htMBits).toNat hp.hctx,
      out⟩
  | .drop _ out => .drop out

/-- The decoder is in front of a table, with at most 15 bits in `hctx`; `later`
bytes of the string come after the fragment. -/
structure HuffmanInv (later : Nat) (s : HuffmanState) : Prop where
  curr_ge : -7 ≤ s.hp.curr
  curr_le : s.hp.curr ≤ 8
  table : IsTable s.offset
  length_eq : s.hp.length = s.src.length + later

lemma bits_setNext (hp : HuffmanCtx) (c : UInt8) (h : n ≤ 8) :
    bits (n + 8) (setNext hp c).hctx = bits n hp.hctx ++ bits 8 c.toNat := by
  rw [setNext, bits_mod (by omega), bits_shiftLeft_or c.toNat_lt]

lemma refill_none (h : refill need hp src = none) : need = true ∧ src = [] := by
  cases need with
  | false => cases h
  | true =>
    cases src with
    | nil => exact ⟨rfl, rfl⟩
    | cons c src => cases h

lemma refill_some (h : refill need hp src = some (hp', src')) (hn : need = true → n ≤ 8) :
    ∃ k : Nat, hp'.curr = hp.curr + k ∧ (need = true ∧ k = 8 ∨ need = false ∧ k = 0) ∧
      bits (n + k) hp'.hctx ++ byteBits src' = bits n hp.hctx ++ byteBits src ∧
      ∀ later, hp.length = src.length + later → hp'.length = src'.length + later := by
  cases need with
  | false =>
    cases h
    exact ⟨0, (Int.add_zero _).symm, .inr ⟨rfl, rfl⟩, rfl, fun _ h => h⟩
  | true =>
    cases src with
    | nil => cases h
    | cons c src =>
      cases h
      refine ⟨8, rfl, .inl ⟨rfl, rfl⟩, ?_, ?_⟩
      · rw [bits_setNext hp c (hn rfl), append_assoc]
        rfl
      · intro later h
        simp only [setNext, length_cons] at h ⊢
        omega

section Lookup

variable (v : Nat) (rest : List Bool)

lemma value_take_bits (hc : 0 ≤ c) :
    value ((bits (c + k).toNat v ++ rest).take k) = (v >>> c.toNat) &&& (2 ^ k - 1) := by
  have hk : k ≤ (c + k).toNat := by omega
  rw [take_append_of_le_length (by rw [length_bits]; exact hk), take_bits hk, value_bits,
    Nat.and_two_pow_sub_one_eq_mod, show (c + k).toNat - k = c.toNat by omega]

lemma drop_bits_append (hj : 0 ≤ j) (hle : j ≤ c + k) :
    (bits (c + k).toNat v ++ rest).drop j.toNat = bits (c - j + k).toNat v ++ rest := by
  have hk : j.toNat ≤ (c + k).toNat := by omega
  rw [drop_append_of_le_length (by rw [length_bits]; exact hk), drop_bits hk,
    show (c + k).toNat - j.toNat = (c - j + k).toNat by omega]

end Lookup

/-- The context and the rest of the fragment from which a table with `m` index bits is
looked up -/
theorem refill_ctx (h : HuffmanInv later s) (hp₀ : HuffmanCtx)
    (hr : refill (decide (hp₀.curr < l)) hp₀ s.src = some (hp, src))
    (hcurr : hp₀.curr + m = s.hp.curr + htNBits) (hctx : hp₀.hctx = s.hp.hctx)
    (hlength : hp₀.length = s.hp.length) (hl : l + m ≤ 8) :
    l ≤ hp.curr ∧ hp.curr + m ≤ 15 ∧ hp.length = src.length + later ∧
      s.toBits.bits = bits (hp.curr + m).toNat hp.hctx ++ byteBits src := by
  have hge := h.curr_ge
  have hle := h.curr_le
  have h7 : htNBits = 7 := rfl
  obtain ⟨k, hk, hneed, hmove, hlen⟩ := refill_some (n := (s.hp.curr + htNBits).toNat) hr
    (fun hneed => by have := of_decide_eq_true hneed; omega)
  have hbounds : l ≤ hp.curr ∧ hp.curr + m ≤ 15 := by
    rcases hneed with ⟨hneed, rfl⟩ | ⟨hneed, rfl⟩
    · have := of_decide_eq_true hneed
      omega
    · have := of_decide_eq_false hneed
      omega
  refine ⟨hbounds.1, hbounds.2, hlen later (hlength.trans h.length_eq), ?_⟩
  rw [show (hp.curr + m).toNat = (s.hp.curr + htNBits).toNat + k by omega, hmove, hctx]
  rfl

lemma entry_isLong (h : IsTable offset) (hlong : offset < htSmall) :
    (htEntry (offset + (i &&& htNMask))).IsLong := by
  have hi : i &&& htNMask ≤ 127 := Nat.and_le_right
  have hs : htSmall = 640 := rfl
  unfold IsTable at h
  exact htEntry_isLong _ (by omega)

lemma entry_isShort (h : IsTable offset) (hshort : ¬ offset < htSmall) :
    (htEntry (offset + (i &&& htMMask))).IsShort := by
  have hi : i &&& htMMask ≤ 7 := Nat.and_le_right
  have hs : htSmall = 640 := rfl
  unfold IsTable at h
  exact htEntry_isShort _ (by omega) (by omega)

def HuffmanState.left (s : HuffmanState) : Nat := s.toBits.bits.length

lemma left_eq : s.left = (s.hp.curr + htNBits).toNat + (byteBits s.src).length := by
  rw [left, toBits, length_append, length_bits]

lemma isTable_zero : IsTable 0 := by decide

/-- A context in which a fragment ended: the next seven bits are not all there. -/
structure Suspended (later : Nat) (hp : HuffmanCtx) : Prop where
  curr_ge : -7 ≤ hp.curr
  curr_le : hp.curr ≤ 0
  length_eq : hp.length = later

/-- The context in front of the lookup that had to wait: the four bits that were
added for a table with three index bits are taken back. -/
def HuffmanCtx.resumed (hp : HuffmanCtx) (offset : Nat) : HuffmanCtx :=
  if offset < htSmall then hp else { hp with curr := hp.curr - (htNBits - htMBits) }

/-- What a turn of the loops leads to -/
structure Turned (later : Nat) (s : HuffmanState) (r : HuffmanState ⊕ HuffmanStop) : Prop where
  toBits : bitStep s.toBits = r.map HuffmanState.toBits HuffmanStop.toBits
  next : ∀ s', r = .inl s' → HuffmanInv later s' ∧ s'.left < s.left
  noBytes : ∀ hp offset out, r = .inr (.noBytes hp offset out) →
    s = ⟨hp.resumed offset, [], offset, out⟩ ∧ Suspended later hp ∧
      (¬ offset < htSmall → hp.curr < 0)

lemma next_of_lookup (hbits : s.toBits.bits = bits (hp.curr + m).toNat hp.hctx ++ byteBits src)
    (hlen : hp.length = src.length + later) (htable : IsTable offset) (hge : -7 ≤ c) (hle : c ≤ 8)
    (hlt : c + 7 < hp.curr + m) :
    ∀ s', Sum.inl (β := HuffmanStop) ⟨{ hp with curr := c }, src, offset, out⟩ = .inl s' →
      HuffmanInv later s' ∧ s'.left < s.left := by
  rintro s' ⟨⟩
  have h7 : htNBits = 7 := rfl
  refine ⟨⟨hge, hle, htable, hlen⟩, ?_⟩
  have hleft : s.left = (hp.curr + m).toNat + (byteBits src).length := by
    rw [left, hbits, length_append, length_bits]
  rw [hleft, left_eq]
  simp only
  omega

lemma huffmanLong_turned (h : HuffmanInv later s) (hlong : s.offset < htSmall) :
    Turned later s (huffmanLong s) := by
  have h7 : htNBits = 7 := rfl
  have hneed : decide (s.hp.curr ≤ 0) = decide (s.hp.curr < 1) := decide_eq_decide.mpr (by omega)
  have hstep : bitStep s.toBits = _ := if_pos (show s.toBits.offset < htSmall from hlong)
  unfold huffmanLong
  rw [hneed]
  cases hr : refill (decide (s.hp.curr < 1)) s.hp s.src with
  | none =>
    obtain ⟨hneed, hsrc⟩ := refill_none hr
    have hcurr : s.hp.curr < 1 := of_decide_eq_true hneed
    have hbits : s.toBits.bits = bits (s.hp.curr + htNBits).toNat s.hp.hctx := by
      rw [toBits, hsrc]
      exact append_nil _
    refine ⟨?_, nofun, ?_⟩
    · rw [hstep, if_pos (by rw [hbits, length_bits]; omega)]
      simp only [Sum.map_inr, HuffmanStop.toBits, if_pos hlong, ← hbits]
      rfl
    · rintro _ _ _ ⟨⟩
      refine ⟨?_, ⟨h.curr_ge, by omega, by simpa [hsrc] using h.length_eq⟩, absurd hlong⟩
      rw [HuffmanCtx.resumed, if_pos hlong, ← hsrc]
  | some p =>
    obtain ⟨hp, src⟩ := p
    obtain ⟨hpos, hle, hlen, hbits⟩ := refill_ctx h s.hp hr rfl rfl rfl (by decide)
    have hentry := entry_isLong (i := hp.hctx >>> hp.curr.toNat) h.table hlong
    have hi : value (s.toBits.bits.take htNBits) = (hp.hctx >>> hp.curr.toNat) &&& htNMask := by
      rw [hbits, value_take_bits _ _ (by omega)]
      rfl
    rw [if_neg (by rw [hbits, length_append, length_bits]; omega), hi] at hstep
    simp only [show s.toBits.offset = s.offset from rfl, show s.toBits.out =
      s.out from rfl] at hstep
    dsimp only
    generalize htEntry (s.offset + ((hp.hctx >>> hp.curr.toNat) &&& htNMask)) = e at hentry hstep ⊢
    unfold HTState.IsLong at hentry
    by_cases hsym : 0 < e.shift
    · rw [if_pos hsym] at hstep ⊢
      refine ⟨?_, next_of_lookup hbits hlen isTable_zero (by omega) (by omega) (by omega), nofun⟩
      rw [hstep, hbits, drop_bits_append _ _ hsym.le (by omega)]
      rfl
    · rw [if_neg hsym] at hstep ⊢
      by_cases hjump : e.shift < 0 ∧ e.offset ≠ 0
      · rw [if_pos hjump] at hstep ⊢
        have htable : IsTable e.offset.toNat := by
          rcases hentry with hsym | hjump
          · omega
          · exact hjump.2.2
        refine ⟨?_, next_of_lookup hbits hlen htable (by omega) (by omega) (by omega), nofun⟩
        rw [hstep, hbits, drop_bits_append _ _ (by omega) (by omega), Int.sub_neg]
        rfl
      · rw [if_neg hjump] at hstep ⊢
        exact ⟨hstep, nofun, nofun⟩

lemma huffmanShort_turned (h : HuffmanInv later s) (hshort : ¬ s.offset < htSmall) :
    Turned later s (huffmanShort s) := by
  have h7 : htNBits = 7 := rfl
  have h3 : htMBits = 3 := rfl
  have hstep : bitStep s.toBits = _ := if_neg (show ¬ s.toBits.offset < htSmall from hshort)
  unfold huffmanShort
  dsimp only
  cases hr : refill (decide (s.hp.curr + (htNBits - htMBits) < 0))
      { s.hp with curr := s.hp.curr + (htNBits - htMBits) } s.src with
  | none =>
    obtain ⟨hneed, hsrc⟩ := refill_none hr
    have hcurr := of_decide_eq_true hneed
    have hge := h.curr_ge
    have hbits : s.toBits.bits =
        bits (s.hp.curr + (htNBits - htMBits) + htMBits).toNat s.hp.hctx := by
      rw [toBits, hsrc, Int.add_assoc, Int.sub_add_cancel]
      exact append_nil _
    refine ⟨?_, nofun, ?_⟩
    · rw [hstep, if_pos (by rw [hbits, length_bits]; omega)]
      simp only [Sum.map_inr, HuffmanStop.toBits, if_neg hshort, ← hbits]
      rfl
    · rintro _ _ _ ⟨⟩
      refine ⟨?_, ⟨by simp only; omega, by simp only; omega, by simpa [hsrc] using h.length_eq⟩,
        fun _ => hcurr⟩
      rw [HuffmanCtx.resumed, if_neg hshort, ← hsrc]
      simp only [Int.add_sub_cancel]
  | some p =>
    obtain ⟨hp, src⟩ := p
    obtain ⟨hpos, hle, hlen, hbits⟩ := refill_ctx h
      { s.hp with curr := s.hp.curr + (htNBits - htMBits) } (m := htMBits) hr (by simp only; omega)
      rfl rfl (by decide)
    have hentry := entry_isShort (i := hp.hctx >>> hp.curr.toNat) h.table hshort
    have hi : value (s.toBits.bits.take htMBits) = (hp.hctx >>> hp.curr.toNat) &&& htMMask := by
      rw [hbits, value_take_bits _ _ hpos]
      rfl
    rw [if_neg (by rw [hbits, length_append, length_bits]; omega), hi] at hstep
    simp only [show s.toBits.offset = s.offset from rfl, show s.toBits.out =
      s.out from rfl] at hstep
    dsimp only
    generalize htEntry (s.offset + ((hp.hctx >>> hp.curr.toNat) &&& htMMask)) = e at hentry hstep ⊢
    unfold HTState.IsShort at hentry
    by_cases hsym : 0 < e.shift
    · rw [if_pos hsym] at hstep ⊢
      refine ⟨?_, next_of_lookup hbits hlen isTable_zero (by omega) (by omega) (by omega), nofun⟩
      rw [hstep, hbits, drop_bits_append _ _ (by omega) (by omega),
        show hp.curr - (e.shift - (htNBits - htMBits)) + htMBits = hp.curr - e.shift + htNBits by
          omega]
      rfl
    · rw [if_neg hsym] at hstep ⊢
      exact ⟨hstep, nofun, nofun⟩

lemma huffmanStep_turned (h : HuffmanInv later s) : Turned later s (huffmanStep s) := by
  unfold huffmanStep
  by_cases hlong : s.offset < htSmall
  · rw [if_pos hlong]
    exact huffmanLong_turned h hlong
  · rw [if_neg hlong]
    exact huffmanShort_turned h hlong

end Tempesta.Hpack
