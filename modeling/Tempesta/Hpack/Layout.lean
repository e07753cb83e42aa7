import Tempesta.Hpack.Integers

/-!
The layout of a header block, read without the tables and the header parser: what stands at
a place, and what behind it. A call of `tfw_hpack_decode` goes on at the place that the
context of the connection says.
-/

namespace Tempesta.Hpack

open List Relation IterLib

/-- An integer is not below `n`. -/
def FlexRes.AtLeast (n : Nat) : FlexRes → Prop
  | .done x _ => n ≤ x
  | .more x _ => n ≤ x
  | _ => True

/-- What stands next in a header block: the first byte of a field, the rest of an integer
that an earlier call has begun, the length or the text of the name or of the value. What an
index stands for takes no bytes. -/
inductive Place where
  | first
  | index (x m : Nat) (literal : Bool)
  | indexedField
  | indexedName
  | window (x m : Nat)
  | nameLength
  | nameLengthRest (x m : Nat)
  | nameText (n : Nat)
  | valueLength
  | valueLengthRest (x m : Nat)
  | valueText (n : Nat)
  deriving DecidableEq, Repr

namespace Place

/-- What stands behind an integer -/
def behind (k : Nat → Option Place) : FlexRes → Option (Place × List UInt8)
  | .done x src => (k x).map (·, src)
  | _ => none

/-- Behind the index of a literal: no index, and the name follows -/
def literal (x : Nat) : Option Place := some (if x = 0 then .nameLength else .indexedName)

/-- What stands behind the integer or the text at the place, if all of it is there -/
def next : Place → List UInt8 → Option (Place × List UInt8)
  | .first, c :: src =>
    if 128 ≤ c.toNat then
      behind (fun x => if x = 0 then none else some .indexedField) (readInt 127 c src)
    else if 64 ≤ c.toNat then behind literal (readInt 63 c src)
    else if 32 ≤ c.toNat then behind (fun _ => some .first) (readInt 31 c src)
    else behind literal (readInt 15 c src)
  | .nameLength, c :: src =>
    behind (fun n => if n = 0 then none else some (.nameText n)) (readInt 127 c src)
  | .valueLength, c :: src => behind (fun n => some (.valueText n)) (readInt 127 c src)
  | .index x m literal, src =>
    behind (fun _ => some (if literal then .indexedName else .indexedField)) (getContinue x m src)
  | .indexedField, src => some (.first, src)
  | .indexedName, src => some (.valueLength, src)
  | .window x m, src => behind (fun _ => some .first) (getContinue x m src)
  | .nameLengthRest x m, src => behind (fun n => some (.nameText n)) (getContinue x m src)
  | .valueLengthRest x m, src => behind (fun n => some (.valueText n)) (getContinue x m src)
  | .nameText n, src => if n ≤ src.length then some (.valueLength, src.drop n) else none
  | .valueText n, src => if 0 < n ∧ n ≤ src.length then some (.first, src.drop n) else none
  | _, [] => none

/-- The places of a block, one behind the other, with the bytes from there on -/
def Reads : Place × List UInt8 → Place × List UInt8 → Prop :=
  ReflTransGen fun t t' => t.1.next t.2 = some t'

/-- The length of a value is the byte 0x80: Huffman-coded, and no bytes. -/
def EmptyHuffman (t : Place × List UInt8) : Prop := ∃ rest, Reads t (.valueLength, 0x80 :: rest)

/-- The first bytes of literals whose index goes on in the next bytes, with the index -/
def longIndices : List (UInt8 × Nat) := [(0x7F, 63), (0x0F, 15), (0x1F, 15)]

/-- The data ends with the bytes of such an index. -/
def EndsInIndex (t : Place × List UInt8) : Prop :=
  ∃ b ∈ longIndices, ∃ rest x, Reads t (.first, b.1 :: rest) ∧ getFlexible b.2 0 rest = .done x []

end Place

/-- The place at which a call goes on -/
def HpackCtx.place (ctx : HpackCtx) : Place :=
  match ctx.state with
  | .ready => .first
  | .allIndexed => .indexedField
  | .index => .index ctx.index ctx.shift !ctx.flags.noValue
  | .name => .nameLength
  | .nameLength => .nameLengthRest ctx.huff.length ctx.shift
  | .nameText => .nameText ctx.huff.length
  | .indexedNameText => .indexedName
  | .value => .valueLength
  | .valueLength => .valueLengthRest ctx.huff.length ctx.shift
  | .valueText => .valueText ctx.huff.length
  | .window => .window ctx.index ctx.shift

variable {f : Nat → Nat → Nat} {n x : Nat} {src out : List UInt8} {t t' : Place × List UInt8}
  {p : Place}

lemma getLen_atLeast (hf : ∀ x y, x ≤ f x y) (h : n ≤ x) (m : Nat) (src : List UInt8) :
    (getLen f x m src).AtLeast n := by
  induction src generalizing x m with
  | nil => exact h
  | cons c src ih =>
    have hle := h.trans (hf x (((c.toNat % 128) <<< m) % 2 ^ 32))
    rw [getLen]
    dsimp only
    split_ifs
    · exact trivial
    · exact trivial
    · exact ih hle (m + 7)
    · exact hle

lemma getFlexible_atLeast (h : n ≤ x) (m : Nat) (src : List UInt8) :
    (getFlexible x m src).AtLeast n := by
  rw [getFlexible_eq]
  exact getLen_atLeast Nat.le_add_right h m src

lemma getContinue_atLeast (h : n ≤ x) (m : Nat) (src : List UInt8) :
    (getContinue x m src).AtLeast n := by
  cases src with
  | nil => exact trivial
  | cons c src =>
    have hle := h.trans (Nat.le_add_right x (((c.toNat % 128) <<< m) % 2 ^ 32))
    rw [getContinue]
    dsimp only
    split_ifs
    · exact trivial
    · exact trivial
    · rw [getContinueFrom_eq]
      exact getLen_atLeast (fun x y => Nat.right_le_or) hle (m + 7) src
    · exact hle

lemma readInt_eq (k : Nat) (c : UInt8) (src : List UInt8) :
    readInt (2 ^ k - 1) c src =
      if c.toNat % 2 ^ k = 2 ^ k - 1 then getFlexible (2 ^ k - 1) 0 src
      else .done (c.toNat % 2 ^ k) src := by
  rw [readInt, Nat.and_two_pow_sub_one_eq_mod]

lemma readInt_length (c : UInt8) (src : List UInt8) : readInt 127 c src =
    if c.toNat % 128 = 127 then getFlexible 127 0 src else .done (c.toNat % 128) src :=
  readInt_eq 7 c src

lemma readInt_window (c : UInt8) (src : List UInt8) : readInt 31 c src =
    if c.toNat % 32 = 31 then getFlexible 31 0 src else .done (c.toNat % 32) src :=
  readInt_eq 5 c src

namespace Place

lemma next_nil (h : p.next [] = some t) : t.2 = [] := by
  cases p with
  | indexedField | indexedName =>
    cases h
    rfl
  | nameText n =>
    rw [next] at h
    split at h
    · cases h
      exact drop_nil
    · cases h
  | valueText n =>
    rw [next] at h
    split at h
    · cases h
      exact drop_nil
    · cases h
  | _ => cases h

lemma Reads.nil (h : Reads t t') (ht : t.2 = []) : t'.2 = [] := by
  induction h with
  | refl => exact ht
  | tail _ hs ih =>
    rw [ih] at hs
    exact next_nil hs

lemma Reads.next_iff (t₁ : Place × List UInt8) (h : t.1.next t.2 = some t₁) :
    Reads t t' ↔ t = t' ∨ Reads t₁ t' := by
  constructor
  · intro hr
    rcases hr.cases_head with rfl | ⟨t₂, hs, hr⟩
    · exact .inl rfl
    · rw [h] at hs
      exact .inr (Option.some.inj hs ▸ hr)
  · rintro (rfl | hr)
    · exact .refl
    · exact hr.head h

lemma Reads.none_iff (h : t.1.next t.2 = none) : Reads t t' ↔ t = t' := by
  refine ⟨fun hr => ?_, fun heq => heq ▸ .refl⟩
  rcases hr.cases_head with rfl | ⟨t₂, hs, -⟩
  · rfl
  · rw [h] at hs
    cases hs

/-- Behind an empty value nothing is read. -/
lemma Reads.emptyValue (h : Reads (.valueText 0, src) t) : t = (.valueText 0, src) := by
  exact ((Reads.none_iff rfl).mp h).symm

end Place

/-- `later` bytes of the string are not in the fragment of the loop. -/
def HuffmanLater (later : Nat) : HuffmanState ⊕ HuffmanStop → Prop
  | .inl s => s.hp.length = s.src.length + later
  | .inr (.noBytes hp _ _) => hp.length = later
  | .inr (.drop _ _) => True

lemma refill_later {later : Nat} (need : Bool) (hp : HuffmanCtx)
    (h : hp.length = src.length + later) :
    (refill need hp src = none → hp.length = later) ∧
      ∀ x, refill need hp src = some x → x.1.length = x.2.length + later := by
  cases need with
  | false =>
    refine ⟨fun hr => (by cases hr), ?_⟩
    rintro x ⟨⟩
    exact h
  | true =>
    cases src with
    | nil => exact ⟨fun _ => by rw [h, length_nil, Nat.zero_add], fun x hr => (by cases hr)⟩
    | cons c src =>
      refine ⟨fun hr => (by cases hr), ?_⟩
      rintro x ⟨⟩
      show hp.length - 1 = src.length + later
      rw [h, length_cons]
      omega

lemma huffmanStep_later {s : HuffmanState} {later : Nat} (h : HuffmanLater later (.inl s)) :
    HuffmanLater later (huffmanStep s) := by
  rw [huffmanStep]
  split
  · obtain ⟨hnone, hsome⟩ := refill_later (s.hp.curr ≤ 0) s.hp h
    rw [huffmanLong]
    split
    · exact hnone ‹_›
    · have hlen := hsome _ ‹_›
      dsimp only
      split_ifs
      · exact hlen
      · exact hlen
      · trivial
  · obtain ⟨hnone, hsome⟩ := refill_later (s.hp.curr + (htNBits - htMBits) < 0)
      { s.hp with curr := s.hp.curr + (htNBits - htMBits) } h
    rw [huffmanShort]
    dsimp only
    split
    · exact hnone ‹_›
    · have hlen := hsome _ ‹_›
      split_ifs
      · exact hlen
      · trivial

lemma huffmanDecodeTail_ret {hp : HuffmanCtx} {offset : Nat} {res : HuffmanRes}
    (h : huffmanDecodeTail n hp offset out = some res) : res.ret = .ok ∨ res.ret = .drop := by
  induction n generalizing hp offset out with
  | zero => cases h
  | succ n ih =>
    rw [huffmanDecodeTail] at h
    dsimp only at h
    split_ifs at h <;> first
      | exact ih h
      | (cases h; exact .inl rfl)
      | (cases h; exact .inr rfl)

lemma huffmanReturn_ret {hp : HuffmanCtx} {offset : Nat} {res : HuffmanRes}
    (h : huffmanReturn (.noBytes hp offset out) = some res) :
    if hp.length ≠ 0 then res.ret = .postpone else res.ret = .ok ∨ res.ret = .drop := by
  rw [huffmanReturn] at h
  split_ifs at h with hlen hoff
  · cases h
    rw [if_pos hlen]
  · rw [if_neg hlen]
    exact huffmanDecodeTail_ret h
  · rw [if_neg hlen]
    rw [huffmanDecodeTailS] at h
    dsimp only at h
    split_ifs at h
    · cases h
      exact .inr rfl
    · exact huffmanDecodeTail_ret h
    · cases h
      exact .inr rfl

/-- A string that is not dropped is decoded exactly if all of it is there. -/
lemma tfwHuffmanDecode_ok_iff {hp : HuffmanCtx} {res : HuffmanRes}
    (h : tfwHuffmanDecode hp out (src.take (min src.length hp.length)) = some res)
    (hsrc : src ≠ []) (hret : res.ret ≠ .drop) : res.ret = .ok ↔ hp.length ≤ src.length := by
  have hpos := length_pos_iff.mpr hsrc
  have hlen : (src.take (min src.length hp.length)).length = min src.length hp.length := by
    rw [length_take]
    omega
  cases hf : src.take (min src.length hp.length) with
  | nil =>
    rw [hf] at h hlen
    cases h
    rw [length_nil] at hlen
    exact iff_of_true rfl (by omega)
  | cons c rest =>
    rw [hf] at h hlen
    rw [length_cons] at hlen
    obtain ⟨r, hr, hres⟩ := Option.bind_eq_some_iff.mp h
    have hlater := (Ends.of_iterate hr).invariant
      (I := fun s => HuffmanLater (hp.length - src.length) (.inl s))
      (Q := fun r => HuffmanLater (hp.length - src.length) (.inr r))
      (fun s s' hi hs => hs ▸ huffmanStep_later hi) (fun s r hi hs => hs ▸ huffmanStep_later hi)
      (show hp.length - 1 = rest.length + (hp.length - src.length) by omega)
    cases r with
    | drop hp' out' =>
      cases hres
      exact absurd rfl hret
    | noBytes hp' offset out' =>
      have hends := huffmanReturn_ret hres
      rw [show hp'.length = hp.length - src.length from hlater] at hends
      split_ifs at hends with hmore
      · rw [hends]
        exact iff_of_false (by decide) (by omega)
      · exact iff_of_true (hends.resolve_right hret) (by omega)

end Tempesta.Hpack
