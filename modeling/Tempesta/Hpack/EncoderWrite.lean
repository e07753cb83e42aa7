import Tempesta.Hpack.EncoderRing

/-!
Writing a node into the buffer. The same words are read as bytes, as an
`unsigned long` and as links; here is what each reading sees after the
assignments to a new node, and which words keep their value.
-/

namespace Tempesta.Hpack
open List RbLib TfwHPackTree

variable {i k y len n addr addr' : Nat} {text bs : List UInt8} {s new : Slot} {t' : TfwHPackTree}
  {x : UInt64} {b : UInt8}

namespace Word

lemma half_ofHalves (x : Nat → UInt16) (hi : i < 4) : (ofHalves x).half i = x i := by
  have hx := (x 0).toNat_lt
  obtain rfl | rfl | rfl | rfl : i = 0 ∨ i = 1 ∨ i = 2 ∨ i = 3 := by omega
  · apply UInt16.toNat_inj.mp
    simp only [half, ofHalves, BitVec.toNat_ofNat]
    by_cases h : 2 ^ 15 ≤ (x 0).toNat
    · simp only [h, if_true, UInt16.toNat_ofNat']
      omega
    · simp only [h, if_false, UInt16.toNat_ofNat', reduceCtorEq]
      omega
  · simp [half, ofHalves]
  · simp [half, ofHalves]
  · simp [half, ofHalves]

lemma byte_ofBytes (b : Nat → UInt8) (hk : k < 8) : (ofBytes b).byte k = b k := by
  have hlo := (b (2 * (k / 2))).toNat_lt
  have hhi := (b (2 * (k / 2) + 1)).toNat_lt
  rw [byte, ofBytes, half_ofHalves _ (by omega)]
  apply UInt8.toNat_inj.mp
  obtain hodd | hodd := Nat.mod_two_eq_zero_or_one k
  · have hk' : 2 * (k / 2) = k := by omega
    rw [hk'] at hlo ⊢
    simp only [hodd, UInt16.toNat_ofNat', UInt8.toNat_ofNat', Nat.pow_zero, Nat.div_one]
    omega
  · have hk' : 2 * (k / 2) + 1 = k := by omega
    rw [hk'] at hhi ⊢
    simp only [hodd, UInt16.toNat_ofNat', UInt8.toNat_ofNat', Nat.pow_one]
    omega

lemma sum_digits {x : Nat} :
    ((List.range n).map fun k => x / 256 ^ k % 256 * 256 ^ k).sum = x % 256 ^ n := by
  induction n with
  | zero => simp [Nat.mod_one]
  | succ n ih =>
    rw [range_succ, map_append, sum_append, ih, Nat.pow_succ, Nat.mod_mul]
    simp [Nat.mul_comm]

lemma toUInt64_ofUInt64 : (ofUInt64 x).toUInt64 = x := by
  have hbytes : ∀ k ∈ range 8, ((ofUInt64 x).byte k).toNat * 256 ^ k =
      x.toNat / 256 ^ k % 256 * 256 ^ k := by
    intro k hk
    rw [ofUInt64, byte_ofBytes _ (List.mem_range.mp hk), UInt8.toNat_ofNat']
  apply UInt64.toNat_inj.mp
  rw [toUInt64, map_congr_left hbytes, sum_digits, UInt64.toNat_ofNat',
    show 256 ^ 8 = 2 ^ 64 by decide, Nat.mod_mod, Nat.mod_eq_of_lt x.toNat_lt]

end Word

namespace TfwHPackTree
variable (t : TfwHPackTree)

lemma byteAt_setByte :
    (t.setByte addr b).byteAt addr' = if addr' = addr then b else t.byteAt addr' := by
  simp only [byteAt, setByte, setWord]
  by_cases hword : addr' / 8 = addr / 8
  · rw [if_pos hword, Word.byte_ofBytes _ (Nat.mod_lt _ (by omega)), hword]
    have hiff : addr' % 8 = addr % 8 ↔ addr' = addr := by omega
    simp only [hiff]
  · rw [if_neg hword, if_neg fun h => hword (congrArg (· / 8) h)]

lemma rbuf_setBytes (addr : Nat) (bs : List UInt8)
    (hi : 8 * i + 8 ≤ addr ∨ addr + bs.length ≤ 8 * i) :
    (t.setBytes addr bs).rbuf i = t.rbuf i := by
  induction bs generalizing t addr with
  | nil => rfl
  | cons b bs ih =>
    simp only [length_cons] at hi
    rw [setBytes, ih _ _ (by omega)]
    exact if_neg (by omega)

lemma byteAt_setBytes :
    (t.setBytes addr bs).byteAt addr' =
      if h : addr ≤ addr' ∧ addr' < addr + bs.length then bs.get ⟨addr' - addr, by omega⟩
      else t.byteAt addr' := by
  induction bs generalizing t addr with
  | nil => simp [setBytes]
  | cons b bs ih =>
    rw [setBytes, ih, byteAt_setByte]
    by_cases heq : addr' = addr
    · subst heq
      simp
    · by_cases hin : addr + 1 ≤ addr' ∧ addr' < addr + 1 + bs.length
      · have hsub : addr' - addr = addr' - (addr + 1) + 1 := by omega
        rw [dif_pos hin, dif_pos (by simp; omega)]
        simp [hsub]
      · rw [dif_neg hin, dif_neg (by simp; omega), if_neg heq]

@[simp] lemma root_setBytes : (t.setBytes addr bs).root = t.root := by
  induction bs generalizing t addr with
  | nil => rfl
  | cons b bs ih => rw [setBytes, ih, setByte, setWord]

end TfwHPackTree

section Node
variable (t : TfwHPackTree) (rindex : UInt64)

@[simp] lemma root_writeNode : (writeNode t y len rindex text).root = t.root := by
  simp [writeNode, setHdrLen, setRindex, setWord]

lemma rbuf_writeNode (hi : i < y ∨ y + 2 ≤ i ∧ 8 * y + 16 + text.length ≤ 8 * i) :
    (writeNode t y len rindex text).rbuf i = t.rbuf i := by
  rw [writeNode, rbuf_setBytes _ _ _ (by simp only [hdrAddr]; omega)]
  simp only [setHdrLen, setRindex, setWord]
  rw [if_neg (by omega), if_neg (by omega)]

lemma rbuf_writeNode_head : (writeNode t y len rindex text).rbuf (y + 1) =
    { t.rbuf (y + 1) with hdrLen := BitVec.ofNat 15 len } := by
  rw [writeNode, rbuf_setBytes _ _ _ (by simp only [hdrAddr]; omega)]
  simp [setHdrLen, setRindex, setWord]

lemma rbuf_writeNode_rindex : (writeNode t y len rindex text).rbuf y = .ofUInt64 rindex := by
  rw [writeNode, rbuf_setBytes _ _ _ (by simp only [hdrAddr]; omega)]
  simp [setRindex, setWord]

lemma hdrLen_writeNode (hlen : len < 2 ^ 15) :
    (writeNode t y len rindex text).hdrLen y = len := by
  rw [hdrLen, rbuf_writeNode_head, BitVec.toNat_ofNat]
  exact Nat.mod_eq_of_lt hlen

lemma hdrText_writeNode (hlen : len < 2 ^ 15) (htext : text.length = len) :
    (writeNode t y len rindex text).hdrText y = text := by
  apply ext_getElem
  · simp [hdrText, hdrLen_writeNode t rindex hlen, htext]
  · intro i hi hi'
    simp only [hdrText, getElem_map, getElem_range, writeNode,
      byteAt_setBytes]
    rw [dif_pos (by omega)]
    simp

end Node

/-- The node is in the buffer with what was stored in it. -/
structure StoredAt (t : TfwHPackTree) (s : Slot) : Prop where
  hdrLen : t.hdrLen s.pos = s.hdrLen
  rindex : t.rindex s.pos = s.rindex
  text : t.hdrText s.pos = s.text

section Stored
variable {t : TfwHPackTree}

/-- What is stored in a node depends on its first word, on the length and on the
words with the text. -/
theorem StoredAt.congr (h : StoredAt t s)
    (hlen : (t'.rbuf (s.pos + 1)).hdrLen = (t.rbuf (s.pos + 1)).hdrLen)
    (hfirst : t'.rbuf s.pos = t.rbuf s.pos)
    (htext : ∀ i, s.pos + 2 ≤ i → 8 * i < 8 * s.pos + 16 + s.hdrLen → t'.rbuf i = t.rbuf i) :
    StoredAt t' s := by
  have hhdr : t'.hdrLen s.pos = t.hdrLen s.pos := congrArg BitVec.toNat hlen
  refine ⟨hhdr.trans h.hdrLen, (congrArg Word.toUInt64 hfirst).trans h.rindex, ?_⟩
  rw [← h.text, hdrText, hdrText, hhdr]
  refine map_congr_left fun k hk => ?_
  have hk' : k < s.hdrLen := h.hdrLen ▸ List.mem_range.mp hk
  simp only [byteAt, hdrAddr]
  rw [htext _ (by omega) (by omega)]

lemma storedAt_writeNode (hlen : s.hdrLen < 2 ^ 15) (htext : s.text.length = s.hdrLen) :
    StoredAt (writeNode t s.pos s.hdrLen s.rindex s.text) s where
  hdrLen := hdrLen_writeNode t s.rindex hlen
  rindex := by
    rw [rindex, rbuf_writeNode_rindex, Word.toUInt64_ofUInt64]
  text := hdrText_writeNode t s.rindex hlen htext

lemma StoredAt.writeNode (h : StoredAt t s) (hap : Apart s new)
    (htext : new.text.length = new.hdrLen) :
    StoredAt (writeNode t new.pos new.hdrLen new.rindex new.text) s := by
  have hs := s.hdrLen_le_words
  have hnew := new.hdrLen_le_words
  have hkeep : ∀ i, s.pos ≤ i → i < s.next →
      (Hpack.writeNode t new.pos new.hdrLen new.rindex new.text).rbuf i = t.rbuf i := by
    intro i hlo hhi
    simp only [Apart, Slot.next] at hap hhi
    exact rbuf_writeNode t new.rindex (by omega)
  simp only [Slot.next] at hkeep
  refine h.congr ?_ (hkeep _ (by omega) (by omega)) fun i hlo hhi => hkeep i (by omega) (by omega)
  rw [hkeep _ (by omega) (by omega)]

end Stored

end Tempesta.Hpack
