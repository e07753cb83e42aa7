import Tempesta.Lib.Span

/-!
The string matchers for the alphabets of HTTP fields. An alphabet is a table of 256
bytes, and a vector of column bitmaps for blocks of 16 characters and more; the
configuration may replace the built-in alphabets.
-/

namespace Tempesta.Str

open SpanLib

/-- The alphabets -/
inductive Alphabet where
  | uri
  | token
  | qetoken
  | nctl
  | ctextVchar
  | xff
  | cookie
  | etag
  deriving DecidableEq, Repr

/-- A set of bytes: the nonzero entries of a table of 256 bytes. -/
abbrev ByteSet := UInt8 → Bool

/-- Where the byte `c` finds its value in a vector of two lanes: `vpshufb` takes the
low four bits. -/
def laneIdx (lane : Fin 2) (c : UInt8) : Fin 32 :=
  ⟨16 * lane.val + c.toNat % 16, by omega⟩

/-- One byte of `vpshufb`. -/
def vpshufb (v : Vector UInt8 32) (lane : Fin 2) (c : UInt8) : UInt8 :=
  if c &&& 0x80 ≠ 0 then 0 else v.get (laneIdx lane c)

def quads (lo hi : Nat) : Vector UInt8 32 :=
  Vector.ofFn fun i =>
    UInt8.ofNat ((if i.val % 16 < 8 then lo else hi) >>> (8 * (i.val % 8)))

/-- `__ARF`: the bit of an ASCII row -/
def arf : Vector UInt8 32 := quads 0x8040201008040201 0x8040201008040201

/-- The bit of the row of `c`: `vpsrlw` by four, `__LSH`, `__ARF`. -/
def rowBit (lane : Fin 2) (c : UInt8) : UInt8 :=
  vpshufb arf lane ((c >>> 4) &&& 0x0f)

/-- The test of `__tfw_strspn_simd` -/
def strspnTest (v : Vector UInt8 32) (lane : Fin 2) (c : UInt8) : Bool :=
  (vpshufb v lane c &&& rowBit lane c) != 0

/-- The test of `FULL_MATCH`, which compares the characters as signed numbers -/
def fullMatchTest (start : UInt8) (exclude : Bool) (char c : UInt8) : Bool :=
  let below := decide ((c - 0x80).toInt8 < start.toInt8) || c == 0x7f
  !(if exclude then below || c == char else below ^^ c == char)

/-- The test of `__tfw_match_custom` -/
def customTest (a0 a1 : Vector UInt8 32) (lane : Fin 2) (c : UInt8) : Bool :=
  ((vpshufb a0 lane c ||| vpshufb a1 lane (c ^^^ 0x80)) &&& rowBit lane c) != 0

def asciiTable (rows : List Nat) : ByteSet :=
  fun c => (rows.getD (c.toNat / 16) 0).testBit (15 - c.toNat % 16)

def obsText : List Nat := List.replicate 8 0xffff

def builtinTable : Alphabet → ByteSet
  | .uri => asciiTable
      [0, 0, 0b0101111111111111, 0b1111111111110101,
        0b1111111111111111, 0b1111111111110101, 0b0111111111111111, 0b1111111111100010]
  | .token => asciiTable
      [0, 0, 0b0101111100110110, 0b1111111111000000,
        0b0111111111111111, 0b1111111111100011, 0b1111111111111111, 0b1111111111101010]
  | .qetoken => asciiTable
      [0, 0, 0b0111111100110110, 0b1111111111000100,
        0b0111111111111111, 0b1111111111100011, 0b1111111111111111, 0b1111111111101010]
  | .nctl => asciiTable
      [0b0000000001000000, 0, 0b1111111111111111, 0b1111111111111111,
        0b1111111111111111, 0b1111111111111111, 0b1111111111111111, 0b1111111111111110]
  | .ctextVchar => asciiTable <|
      [0b0000000001000000, 0, 0b1111111111111111, 0b1111111111111111,
        0b1111111111111111, 0b1111111111111111, 0b1111111111111111, 0b1111111111111110] ++ obsText
  | .xff => asciiTable
      [0, 0, 0b0000000000000110, 0b1111111111100000,
        0b0111111111111111, 0b1111111111110101, 0b0111111111111111, 0b1111111111100000]
  | .cookie => asciiTable
      [0, 0, 0b0111111111110111, 0b1111111111101111,
        0b1111111111111111, 0b1111111111110111, 0b1111111111111111, 0b1111111111111110]
  | .etag => asciiTable <|
      [0, 0, 0b0101111111111111, 0b1111111111111111,
        0b1111111111111111, 0b1111111111111111, 0b1111111111111111, 0b1111111111111110] ++ obsText

def builtinTest : Alphabet → Fin 2 → UInt8 → Bool
  | .uri => strspnTest (quads 0xfcfcfcfcfcf8fcb8 0x7cd47c547cfcfcfc)
  | .token => strspnTest (quads 0xfcfcfcfcfcf8fce8 0x70f454d054f4f8f8)
  | .qetoken => strspnTest (quads 0xfcfcfcfcfcfcfce8 0x70f45cd054f4f8f8)
  | .nctl => strspnTest (quads 0xfcfcfcfcfcfcfcfc 0x7cfcfcfcfcfcfdfc)
  | .ctextVchar => fun _ => fullMatchTest 0xa0 false 0x09
  | .xff => strspnTest (quads 0xf8f8f8f8f8f8f8a8 0x7054745070f8f8f8)
  | .cookie => strspnTest (quads 0xfcfcfcfcfcfcfcf8 0x7cfcfcd8f4fcfcfc)
  | .etag => fun _ => fullMatchTest 0xa1 true 0x22

/-- `(i & 0xf) + 16 * !!(i & 0x80)` -/
def maskIdx (i : UInt8) : Fin 32 :=
  ⟨i.toNat % 16 + 16 * (if i &&& 0x80 ≠ 0 then 1 else 0), by split <;> omega⟩

/-- `(i & 0x70) >> 4` -/
def maskRow (i : UInt8) : Nat := ((i &&& 0x70) >>> 4).toNat

variable {c : UInt8} {lane : Fin 2} {str : List UInt8} {v : Vector UInt8 32} {P : UInt8 → Prop}
  {d i : UInt8} {l : List UInt8} {test : Fin 2 → UInt8 → Bool} {k : Fin 32} {a0 : Vector UInt8 32}
  {r : Nat}

lemma forall_byte (h : ∀ i : Fin 256, P (UInt8.ofNat i.val)) (c : UInt8) : P c := by
  have hc := h ⟨c.toNat, c.toNat_lt⟩
  rwa [UInt8.ofNat_toNat] at hc

def isAscii (c : UInt8) : Bool := c.toNat < 128

lemma and_80_eq_zero_iff (c : UInt8) : c &&& 0x80 = 0 ↔ isAscii c := by
  revert c
  apply forall_byte
  decide +kernel

lemma quads_get (lo hi : Nat) (i : Fin 32) :
    (quads lo hi).get i =
      UInt8.ofNat ((if i.val % 16 < 8 then lo else hi) >>> (8 * (i.val % 8))) :=
  Vector.getElem_ofFn i.isLt

lemma rowBit_toNat : (rowBit lane c).toNat = 2 ^ maskRow c := by
  simp only [rowBit, vpshufb, arf, quads_get]
  revert lane
  revert c
  apply forall_byte
  decide +kernel

lemma flip_ascii : isAscii (c ^^^ 0x80) = !isAscii c := by
  revert c
  apply forall_byte
  decide +kernel

lemma flip_row : maskRow (c ^^^ 0x80) = maskRow c := by
  revert c
  apply forall_byte
  decide +kernel

lemma flip_column : (c ^^^ 0x80).toNat % 16 = c.toNat % 16 := by
  revert c
  apply forall_byte
  decide +kernel

lemma flip_flip : c ^^^ 0x80 ^^^ 0x80 = c := by
  rw [UInt8.xor_assoc, UInt8.xor_self, UInt8.xor_zero]

lemma maskRow_lt (c : UInt8) : maskRow c < 8 := by
  revert c
  apply forall_byte
  decide +kernel

lemma eq_of_maskIdx_of_maskRow (hidx : maskIdx c = maskIdx d) (hrow : maskRow c = maskRow d) :
    c = d := by
  have hcode : ∀ e : UInt8, e.toNat =
      (maskIdx e).val % 16 + 128 * ((maskIdx e).val / 16) + 16 * maskRow e := by
    apply forall_byte
    decide +kernel
  apply UInt8.toNat_inj.mp
  rw [hcode c, hcode d, hidx, hrow]

lemma and_rowBit_ne_zero_iff {v : UInt8} :
    v &&& rowBit lane c ≠ 0 ↔ v.toNat.testBit (maskRow c) = true := by
  rw [ne_eq, ← UInt8.toNat_inj, UInt8.toNat_and, rowBit_toNat, Nat.and_two_pow]
  cases v.toNat.testBit (maskRow c) <;> simp

lemma strspnTest_eq :
    strspnTest v lane c = (isAscii c && (v.get (laneIdx lane c)).toNat.testBit (maskRow c)) := by
  rw [Bool.eq_iff_iff, strspnTest, bne_iff_ne, and_rowBit_ne_zero_iff, vpshufb, Bool.and_eq_true,
    ← and_80_eq_zero_iff]
  by_cases h : c &&& 0x80 = 0
  · simp [h]
  · simp [h]

lemma builtinTest_eq_table (x : Alphabet) (lane : Fin 2) (c : UInt8) :
    builtinTest x lane c = builtinTable x c := by
  cases x <;> simp only [builtinTest, builtinTable, strspnTest_eq, quads_get] <;>
    revert lane <;> revert c <;> apply forall_byte <;> decide +kernel

/-- What the configuration leaves of an alphabet: its two rows of `__CUSTOM`, the
table, and whether they are used -/
structure Custom where
  enabled : Bool
  table : ByteSet
  a0 : Vector UInt8 32
  a1 : Vector UInt8 32

namespace Custom

def zero : Custom where
  enabled := false
  table := fun _ => false
  a0 := Vector.replicate 32 0
  a1 := Vector.replicate 32 0

end Custom

/-- One round of the loop of `__init_custom_a` -/
def addByte (cfgA : ByteSet) (a0 : Vector UInt8 32) (i : UInt8) : Vector UInt8 32 :=
  if cfgA i then
    a0.set (maskIdx i) (a0.get (maskIdx i) ||| UInt8.ofNat (1 <<< maskRow i))
  else a0

def allBytes : List UInt8 := (List.range 256).map UInt8.ofNat

def initCustomA (cfgA : ByteSet) (m : Custom) : Custom :=
  let a0 := allBytes.foldl (addByte cfgA) m.a0
  { m with
    table := cfgA
    a1 := Vector.ofFn fun k => a0.get ⟨16 + k.val % 16, by omega⟩
    a0 := Vector.ofFn fun k => a0.get ⟨k.val % 16, by omega⟩ }

/-- `tfw_init_custom_X`: a table of the configuration, or `NULL` -/
def tfwInitCustom (a : Option ByteSet) (m : Custom) : Custom :=
  match a with
  | none => { m with enabled := false }
  | some cfgA => initCustomA cfgA { m with enabled := true }

abbrev Call := Alphabet × Option ByteSet

/-- Each alphabet has rows of `__CUSTOM` and a table of its own. -/
def callStep (m : Alphabet → Custom) (call : Call) : Alphabet → Custom :=
  Function.update m call.1 (tfwInitCustom call.2 (m call.1))

def runCalls (h : List Call) : Alphabet → Custom :=
  h.foldl callStep fun _ => Custom.zero

/-- Strings of at most four characters: a missing third or fourth one counts as zero. -/
def matchShort (table : ByteSet) : List UInt8 → Nat
  | [] => 0
  | [a] => (table a).toNat
  | a :: b :: l =>
    let t2 := (l[0]?.map table).getD false
    let t3 := (l[1]?.map table).getD false
    if table a && table b then
      if t2 then 2 + t2.toNat + t3.toNat else 2
    else (table a).toNat

def matchTail (table : ByteSet) : List UInt8 → Nat
  | a :: b :: c :: d :: l =>
    let t01 := table a && table b
    let t23 := table c && table d
    if t01 && t23 then 4 + matchTail table l
    else if t01 then
      2 + if table c then (table c).toNat + (table d).toNat else (table c).toNat
    else (table a).toNat
  | [a, b, c] => if table a && table b then 2 + (table c).toNat else (table a).toNat
  | [a, b] => if table a && table b then 2 else (table a).toNat
  | [a] => (table a).toNat
  | [] => 0

/-- The walk that `__tfw_match_custom`, `__tfw_strspn_simd` and `FULL_MATCH` share:
blocks of 128 characters, then at most one of 64, 32 and 16, then the tail. -/
def matchSimd (test : Fin 2 → UInt8 → Bool) (table : ByteSet) (str : List UInt8) : Nat :=
  let ok := fun i => test ⟨i / 16 % 2, Nat.mod_lt _ (by decide)⟩
  if str.length ≤ 4 then matchShort table str
  else
    blocks 128 ok (block 64 ok (block 32 ok (block 16 ok (matchTail table)))) str.length str

/-- The vector test of `tfw_match_X` -/
def vectorTest (x : Alphabet) (m : Custom) : Fin 2 → UInt8 → Bool :=
  if m.enabled then customTest m.a0 m.a1 else builtinTest x

/-- The byte table of `tfw_match_X` -/
def scalarTable (x : Alphabet) (m : Custom) : ByteSet :=
  if m.enabled then m.table else builtinTable x

/-- `tfw_match_X` -/
def tfwMatch (x : Alphabet) (m : Custom) (str : List UInt8) : Nat :=
  matchSimd (vectorTest x m) (scalarTable x m) str

variable {table : ByteSet}

lemma matchShort_eq_span (h : str.length ≤ 4) : matchShort table str = span table str := by
  match str, h with
  | [], _ => rfl
  | [a], _ => cases ha : table a <;> simp [matchShort, ha]
  | [a, b], _ => cases ha : table a <;> cases hb : table b <;> simp [matchShort, ha, hb]
  | [a, b, c], _ =>
    cases ha : table a <;> cases hb : table b <;> cases hc : table c <;>
      simp [matchShort, ha, hb, hc]
  | [a, b, c, d], _ =>
    cases ha : table a <;> cases hb : table b <;> cases hc : table c <;> cases hd : table d <;>
      simp [matchShort, ha, hb, hc, hd]
  | _ :: _ :: _ :: _ :: _ :: _, h =>
    simp only [List.length_cons] at h
    omega

lemma matchTail_eq_span (table : ByteSet) (str : List UInt8) :
    matchTail table str = span table str := by
  fun_induction matchTail table str with
  | case1 a b c d l t01 t23 h ih =>
    simp only [t01, t23, Bool.and_eq_true] at h
    simp only [span_cons, h, if_true, ih]
    omega
  | case2 a b c d l t01 t23 h h' =>
    simp only [t01, t23, Bool.and_eq_true] at h h'
    cases hc : table c <;> cases hd : table d <;> simp_all
  | case3 a b c d l t01 t23 h h' =>
    simp only [t01, Bool.and_eq_true] at h'
    cases ha : table a <;> cases hb : table b <;> simp_all
  | case4 a b c h => cases hc : table c <;> simp_all
  | case5 a b c h => cases ha : table a <;> cases hb : table b <;> simp_all
  | case6 a b h => simp_all
  | case7 a b h => cases ha : table a <;> cases hb : table b <;> simp_all
  | case8 a => cases ha : table a <;> simp [ha]
  | case9 => rfl

/-- Where the two tests accept the same characters, the matcher counts the accepted
ones in front. -/
theorem matchSimd_eq_span (h : ∀ lane c, test lane c = table c) :
    matchSimd test table str = span table str := by
  unfold matchSimd
  split
  · rename_i hlen
    exact matchShort_eq_span hlen
  · have htail : ∀ l, matchTail table l = span table l := matchTail_eq_span table
    have h16 := block_eq_span (w := 16) (fun i _ => h (Fin.ofNat 2 (i / 16))) htail
    have h32 := block_eq_span (w := 32) (fun i _ => h (Fin.ofNat 2 (i / 16))) h16
    have h64 := block_eq_span (w := 64) (fun i _ => h (Fin.ofNat 2 (i / 16))) h32
    exact blocks_eq_span (fun i _ => h (Fin.ofNat 2 (i / 16))) h64 _ str

theorem mem_allBytes (c : UInt8) : c ∈ allBytes :=
  List.mem_map.mpr ⟨c.toNat, List.mem_range.mpr c.toNat_lt, UInt8.ofNat_toNat⟩

lemma get_eq : v.get k = v[k.val] := rfl

variable {cfgA : ByteSet}

lemma addByte_testBit :
    ((addByte cfgA a0 i).get k).toNat.testBit r = true ↔
      (a0.get k).toNat.testBit r = true ∨ (cfgA i = true ∧ maskIdx i = k ∧ maskRow i = r) := by
  unfold addByte
  by_cases hi : cfgA i
  · rw [if_pos hi]
    by_cases hk : maskIdx i = k
    · subst hk
      have hrow := maskRow_lt i
      have hbit : (UInt8.ofNat (1 <<< maskRow i)).toNat = 2 ^ maskRow i := by
        rw [Nat.one_shiftLeft, UInt8.toNat_ofNat_of_lt']
        exact Nat.pow_lt_pow_right (by decide) hrow
      simp [get_eq, UInt8.toNat_or, Nat.testBit_or, hbit, Nat.testBit_two_pow, hi]
    · have hne : (maskIdx i).val ≠ k.val := fun h => hk (Fin.ext h)
      simp [get_eq, Vector.getElem_set_ne, hne, hk]
  · simp [hi]

/-- The loop of `__init_custom_a` adds the bytes of the table, and takes none away. -/
theorem foldl_addByte_testBit :
    ((l.foldl (addByte cfgA) a0).get k).toNat.testBit r = true ↔
      (a0.get k).toNat.testBit r = true ∨
        ∃ i ∈ l, cfgA i = true ∧ maskIdx i = k ∧ maskRow i = r := by
  induction l generalizing a0 with
  | nil => simp
  | cons i l ih =>
    rw [List.foldl_cons, ih, addByte_testBit]
    simp only [List.mem_cons, exists_eq_or_imp, or_assoc]

lemma loop_testBit :
    ((allBytes.foldl (addByte cfgA) a0).get (maskIdx c)).toNat.testBit (maskRow c) = true ↔
      (a0.get (maskIdx c)).toNat.testBit (maskRow c) = true ∨ cfgA c = true := by
  rw [foldl_addByte_testBit]
  constructor
  · rintro (h | ⟨i, -, hi, hidx, hrow⟩)
    · exact .inl h
    · rw [eq_of_maskIdx_of_maskRow hidx hrow] at hi
      exact .inr hi
  · rintro (h | h)
    · exact .inl h
    · exact .inr ⟨c, mem_allBytes c, h, rfl, rfl⟩

lemma customTest_eq (a0 a1 : Vector UInt8 32) :
    customTest a0 a1 lane c =
      if isAscii c then (a0.get (laneIdx lane c)).toNat.testBit (maskRow c)
      else (a1.get (laneIdx lane (c ^^^ 0x80))).toNat.testBit (maskRow c) := by
  have hzero := and_80_eq_zero_iff c
  have hzero' := and_80_eq_zero_iff (c ^^^ 0x80)
  rw [flip_ascii] at hzero'
  rw [Bool.eq_iff_iff, customTest, bne_iff_ne, and_rowBit_ne_zero_iff, vpshufb, vpshufb]
  by_cases h : isAscii c
  · simp [h, hzero.mpr h, hzero']
  · simp [h, hzero, hzero'.mpr (by simp [h])]

section encoding
variable {m : Custom}

lemma maskIdx_of_ascii (h : isAscii c) : (maskIdx c).val = c.toNat % 16 := by
  simp [maskIdx, (and_80_eq_zero_iff c).mpr h]

lemma maskIdx_of_not_ascii (h : ¬ isAscii c) : (maskIdx c).val = c.toNat % 16 + 16 := by
  simp [maskIdx, and_80_eq_zero_iff c, h]

lemma initCustomA_a0 (h : isAscii c) :
    (initCustomA cfgA m).a0.get (laneIdx lane c) =
      (allBytes.foldl (addByte cfgA) m.a0).get (maskIdx c) := by
  have hidx : (laneIdx lane c).val % 16 = (maskIdx c).val := by
    rw [maskIdx_of_ascii h]
    show (16 * lane.val + c.toNat % 16) % 16 = c.toNat % 16
    omega
  calc (initCustomA cfgA m).a0.get (laneIdx lane c)
      = (allBytes.foldl (addByte cfgA) m.a0).get ⟨(laneIdx lane c).val % 16, by omega⟩ :=
        Vector.getElem_ofFn (laneIdx lane c).isLt
    _ = _ := congrArg _ (Fin.ext hidx)

lemma initCustomA_a1 (h : ¬ isAscii c) :
    (initCustomA cfgA m).a1.get (laneIdx lane (c ^^^ 0x80)) =
      (allBytes.foldl (addByte cfgA) m.a0).get (maskIdx c) := by
  have hidx : 16 + (laneIdx lane (c ^^^ 0x80)).val % 16 = (maskIdx c).val := by
    rw [maskIdx_of_not_ascii h, ← flip_column]
    show 16 + (16 * lane.val + (c ^^^ 0x80).toNat % 16) % 16 = (c ^^^ 0x80).toNat % 16 + 16
    omega
  calc (initCustomA cfgA m).a1.get (laneIdx lane (c ^^^ 0x80))
      = (allBytes.foldl (addByte cfgA) m.a0).get
          ⟨16 + (laneIdx lane (c ^^^ 0x80)).val % 16, by omega⟩ :=
        Vector.getElem_ofFn (laneIdx lane (c ^^^ 0x80)).isLt
    _ = _ := congrArg _ (Fin.ext hidx)

end encoding

def callsFor (x : Alphabet) (h : List Call) : List (Option ByteSet) :=
  h.filterMap fun call => if call.1 = x then some call.2 else none

def currentAlphabet (x : Alphabet) (cs : List (Option ByteSet)) : ByteSet :=
  match cs.getLast? with
  | some (some a) => a
  | _ => builtinTable x

def runCustom (cs : List (Option ByteSet)) : Custom :=
  cs.foldl (fun m a => tfwInitCustom a m) Custom.zero

variable {h : List Call} {x : Alphabet}

lemma runCalls_eq_runCustom : runCalls h x = runCustom (callsFor x h) := by
  induction h using List.reverseRecOn with
  | nil => rfl
  | append_singleton h call ih =>
    obtain ⟨y, a⟩ := call
    rw [runCalls, List.foldl_concat, callsFor, List.filterMap_append]
    by_cases hx : y = x
    · subst hx
      simp only [List.filterMap_cons, if_true, List.filterMap_nil]
      rw [runCustom, List.foldl_concat, callStep, Function.update_self]
      exact congrArg _ ih
    · simp only [List.filterMap_cons, if_neg hx, List.filterMap_nil, List.append_nil]
      rw [callStep, Function.update_of_ne (Ne.symm hx)]
      exact ih

lemma runCustom_a0 (cs : List (Option ByteSet)) (hc : isAscii c) :
    ((runCustom cs).a0.get (laneIdx lane c)).toNat.testBit (maskRow c) = true ↔
      ∃ b, some b ∈ cs ∧ b c = true := by
  induction cs using List.reverseRecOn generalizing lane with
  | nil =>
    have hzero : (runCustom []).a0.get (laneIdx lane c) = 0 :=
      Vector.getElem_replicate (laneIdx lane c).isLt
    simp [hzero]
  | append_singleton cs a ih =>
    rw [runCustom, List.foldl_concat]
    cases a with
    | none =>
      simp only [List.mem_append, List.mem_singleton, reduceCtorEq, or_false]
      exact ih
    | some a =>
      have hidx : maskIdx c = laneIdx 0 c := Fin.ext <| by
        rw [maskIdx_of_ascii hc]
        exact (Nat.zero_add _).symm
      rw [tfwInitCustom, initCustomA_a0 hc, loop_testBit, hidx]
      have hearlier := @ih 0
      refine (or_congr_left hearlier).trans ?_
      simp only [List.mem_append, List.mem_singleton, Option.some.injEq, or_and_right,
        exists_or, exists_eq_left]

section last
variable {cs : List (Option ByteSet)} {a : ByteSet}

lemma runCustom_concat (a : Option ByteSet) :
    runCustom (cs ++ [a]) = tfwInitCustom a (runCustom cs) := by
  rw [runCustom, List.foldl_concat]
  rfl

lemma currentAlphabet_concat (a : Option ByteSet) :
    currentAlphabet x (cs ++ [a]) = a.getD (builtinTable x) := by
  rw [currentAlphabet, List.getLast?_concat]
  cases a <;> rfl

/-- What the custom matcher accepts: the bytes below 0x80 of every table there has been,
above it the bytes of the last table and those of the earlier ones 0x80 higher. -/
theorem customTest_runCustom :
    customTest (runCustom (cs ++ [some a])).a0 (runCustom (cs ++ [some a])).a1 lane c = true ↔
      a c = true ∨ ∃ b, some b ∈ cs ∧ b (if isAscii c then c else c ^^^ 0x80) = true := by
  rw [customTest_eq]
  by_cases hc : isAscii c
  · rw [if_pos hc, if_pos hc, runCustom_a0 _ hc]
    simp only [List.mem_append, List.mem_singleton, Option.some.injEq, or_and_right, exists_or,
      exists_eq_left]
    exact or_comm
  · have hflip : isAscii (c ^^^ 0x80) = true := by simp [flip_ascii, hc]
    have hidx : maskIdx c = laneIdx 1 (c ^^^ 0x80) := Fin.ext <| by
      rw [maskIdx_of_not_ascii hc, ← flip_column]
      exact Nat.add_comm _ _
    rw [if_neg hc, if_neg hc, runCustom_concat, tfwInitCustom, initCustomA_a1 hc,
      loop_testBit, hidx,
      ← flip_row]
    exact (or_congr_left (runCustom_a0 cs hflip)).trans or_comm

end last

/-- The matcher of an alphabet accepts the bytes of the last call, in a block as in the
tail. -/
def Exact (x : Alphabet) (h : List Call) : Prop :=
  ∀ c, (∀ lane, vectorTest x (runCalls h x) lane c = currentAlphabet x (callsFor x h) c) ∧
    scalarTable x (runCalls h x) c = currentAlphabet x (callsFor x h) c

/-- The last table has the bytes below 0x80 of each table before it, and the bytes 0x80
higher. -/
def CoversEarlier (cs : List (Option ByteSet)) : Prop :=
  ∀ cs' a, cs = cs' ++ [some a] →
    ∀ b, some b ∈ cs' → ∀ c, isAscii c → b c = true → a c = true ∧ a (c ^^^ 0x80) = true

lemma exact_of_builtin (henabled : (runCustom (callsFor x h)).enabled = false)
    (hcurrent : currentAlphabet x (callsFor x h) = builtinTable x) : Exact x h := by
  intro c
  rw [runCalls_eq_runCustom, vectorTest, scalarTable, henabled, hcurrent]
  exact ⟨fun lane => builtinTest_eq_table x lane c, rfl⟩

section concat
variable {cs : List (Option ByteSet)} {a : ByteSet} (hcs : callsFor x h = cs ++ [some a])
include hcs

lemma vectorTest_concat : vectorTest x (runCalls h x) lane c = true ↔
    a c = true ∨ ∃ b, some b ∈ cs ∧ b (if isAscii c then c else c ^^^ 0x80) = true := by
  rw [← customTest_runCustom, vectorTest, runCalls_eq_runCustom, hcs, runCustom_concat]
  rfl

lemma current_concat : currentAlphabet x (callsFor x h) = a := by
  rw [hcs, currentAlphabet_concat]
  rfl

/-- A custom alphabet that covers those before it is matched as configured. -/
lemma exact_of_covers (hcovers : ∀ b, some b ∈ cs → ∀ c, isAscii c → b c = true →
    a c = true ∧ a (c ^^^ 0x80) = true) : Exact x h := by
  have hscalar : scalarTable x (runCalls h x) = a := by
    rw [scalarTable, runCalls_eq_runCustom, hcs, runCustom_concat]
    rfl
  intro c
  rw [current_concat hcs]
  refine ⟨fun lane => ?_, congrFun hscalar c⟩
  rw [Bool.eq_iff_iff, vectorTest_concat hcs]
  refine or_iff_left_of_imp ?_
  rintro ⟨b, hb, hbc⟩
  by_cases hc : isAscii c
  · rw [if_pos hc] at hbc
    exact (hcovers b hb c hc hbc).1
  · rw [if_neg hc] at hbc
    have hflip : isAscii (c ^^^ 0x80) = true := by simp [flip_ascii, hc]
    have := (hcovers b hb _ hflip hbc).2
    rwa [flip_flip] at this

end concat

/-- The byte masks are never cleared: a custom alphabet is matched as configured exactly
when it covers those before it. -/
theorem exact_iff_coversEarlier (x : Alphabet) (h : List Call) :
    Exact x h ↔ CoversEarlier (callsFor x h) := by
  obtain hnil | ⟨cs, a, hcs⟩ := (callsFor x h).eq_nil_or_concat
  · have hexact : Exact x h := exact_of_builtin (by rw [hnil]; rfl) (by rw [hnil]; rfl)
    refine iff_of_true hexact ?_
    intro cs' a hcs
    rw [hnil] at hcs
    simp at hcs
  · rw [List.concat_eq_append] at hcs
    cases a with
    | none =>
      have hexact : Exact x h := exact_of_builtin (by rw [hcs, runCustom_concat]; rfl)
        (by rw [hcs, currentAlphabet_concat]; rfl)
      refine iff_of_true hexact ?_
      intro cs' a hcs'
      rw [hcs] at hcs'
      have := List.append_inj_right' hcs' rfl
      simp at this
    | some a =>
      refine ⟨?_, fun hcovers => exact_of_covers hcs (hcovers cs a hcs)⟩
      intro hexact cs' a' hcs' b hb c hc hbc
      obtain ⟨rfl, hlast⟩ := List.append_inj' (hcs.symm.trans hcs') rfl
      obtain rfl : a = a' := by simpa using hlast
      have hflip : ¬ isAscii (c ^^^ 0x80) := by simp [flip_ascii, hc]
      have haccept : ∀ d lane, vectorTest x (runCalls h x) lane d = true → a d = true := by
        intro d lane hd
        rw [← current_concat hcs, ← (hexact d).1 lane]
        exact hd
      constructor
      · apply haccept c 0
        exact (vectorTest_concat hcs).mpr (.inr ⟨b, hb, by rw [if_pos hc]; exact hbc⟩)
      · apply haccept _ 0
        exact (vectorTest_concat hcs).mpr
          (.inr ⟨b, hb, by rw [if_neg hflip, flip_flip]; exact hbc⟩)

/-- A byte of the table at start-up is still accepted in blocks after the configuration
has dropped it. -/
theorem stale_byte :
    ¬ Exact .uri [(.uri, some (· == 0x41)), (.uri, none), (.uri, some (· == 0x42))] := by
  intro h
  have hblock := (h 0x41).1 0
  revert hblock
  decide +kernel

/-- Blocks of 128 to 16 characters, tail and short strings: the matcher counts the characters
of the alphabet in front. -/
theorem tfwMatch_eq_span (x : Alphabet) (h : List Call) (hexact : Exact x h) (str : List UInt8) :
    tfwMatch x (runCalls h x) str = span (currentAlphabet x (callsFor x h)) str := by
  have htable : scalarTable x (runCalls h x) = currentAlphabet x (callsFor x h) :=
    funext fun c => (hexact c).2
  rw [tfwMatch, ← htable]
  apply matchSimd_eq_span
  intro lane c
  rw [(hexact c).1 lane, htable]

/-- The second table has the byte of the first one and the one 0x80 higher. -/
def growingUri : List Call :=
  [(.uri, some (· == 0x41)), (.uri, some fun c => c == 0x41 || c == 0x42 || c == 0xC1)]

theorem tfwMatch_eq_span_growing :
    tfwMatch .uri (runCalls growingUri .uri) (List.replicate 40 0x41 ++ [0x42, 0x2f, 0x41]) =
      41 := by
  have hcalls : callsFor .uri growingUri =
      [some (· == 0x41)] ++ [some fun c => c == 0x41 || c == 0x42 || c == 0xC1] := rfl
  have hexact : Exact .uri growingUri := by
    refine exact_of_covers hcalls fun b hb c _ hbc => ?_
    obtain rfl : b = (· == 0x41) := by simpa using hb
    obtain rfl : c = 0x41 := by simpa using hbc
    decide
  exact (tfwMatch_eq_span .uri growingUri hexact _).trans (by decide)

end Tempesta.Str
