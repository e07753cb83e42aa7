import Tempesta.Cache.Appended
import Tempesta.Cache.Lengths

/-!
Cached headers on their way to an HTTP/1.1 client, without configured modifications. The
stages of the decoder are taken from the last one to the first: each says for which of
the states it can start in, and for which cuts of the bytes that are left, the client gets the
header.
-/

namespace Tempesta.Cache

open List Hpack Http VarintLib Option DcState

def h1Conf : DcConf := ⟨false, []⟩

/-- The call that ended with `x` and the calls for the other parts leave `text` in the
response. -/
def Serves (text : List UInt8) (b : Nat → Nat → UInt8) (x : Option DcState)
    (ps : List (List UInt8)) : Prop :=
  (x.bind fun d => decodeWriteFrom h1Conf b d ps).map DcState.out = some text

variable {src prev s text p w a r out hdrData value name u head nm : List UInt8}
  {x : Option DcState}
  {ps : List (List UInt8)} {b : Nat → Nat → UInt8} {c : UInt8} {e d : DcState}
  {C : List UInt8 → List (List UInt8) → Prop} {n o i len idx t : Nat} {behind : Nat → UInt8}
  {k first : (Nat → UInt8) → DcState → List UInt8 → Option DcState} {st : HpackState}
  {K : Nat → List (List UInt8) → Prop} {ok : Nat → Prop} {hdr : CachedHdr}

lemma not_serves_none : ¬ Serves text b none ps := nofun

lemma serves_some_nil : Serves text b (some d) [] ↔ d.out = text := by
  rw [Serves, bind_some, decodeWriteFrom, map_some, some_inj]

lemma serves_some_cons (hskip : d.skip = false) :
    Serves text b (some d) (p :: ps) ↔
      Serves text (fun i => b (i + 1)) (cacheDecodeExpand h1Conf (b 0) d p) ps := by
  rw [Serves, Serves, bind_some, decodeWriteFrom, hskip, if_neg Bool.false_ne_true]

lemma not_serves_of_each (hx : Each (Led s) x) (hs : ¬ s <+: text) : ¬ Serves text b x ps := by
  intro hserves
  obtain ⟨d', hd, hout⟩ := Option.map_eq_some_iff.mp hserves
  obtain ⟨e, he, hrest⟩ := Option.bind_eq_some_iff.mp hd
  have hleads : Leads h1Conf s e := .inl (hx e he)
  obtain hled | ⟨⟨hmode, -⟩, -⟩ := hleads.decodeWriteFrom d' hrest
  · exact hs (hout ▸ hled)
  · cases hmode

/-- What the stages leave alone: the text of the response so far and of the name -/
structure At (out hdrData : List UInt8) (d : DcState) : Prop where
  skip : d.skip = false
  desc : d.desc = none
  out_eq : d.out = out
  hdrData_eq : d.hdrData.flatten = hdrData

/-- The bytes `w` are cut into a part that may be empty and others that are not. -/
structure Cut (w src : List UInt8) (ps : List (List UInt8)) : Prop where
  eq : src ++ ps.flatten = w
  ne : ∀ p ∈ ps, p ≠ []

namespace Cut
lemma of_nil (h : Cut w src []) : src = w := by
  simpa using h.eq

lemma eq_nil (h : Cut w src ps) (hlen : w.length ≤ src.length) : ps = [] := by
  have hflat := congrArg List.length h.eq
  rw [length_append] at hflat
  cases ps with
  | nil => rfl
  | cons p ps =>
    have hp := length_pos_iff.mpr (h.ne p mem_cons_self)
    rw [flatten_cons, length_append] at hflat
    omega

lemma next (h : Cut w src (p :: ps)) : Cut (w.drop src.length) p ps where
  eq := by rw [← h.eq, drop_left, flatten_cons]
  ne := fun q hq => h.ne q (mem_cons_of_mem p hq)

lemma uncons (h : Cut (c :: w) src ps) (hsrc : src ≠ []) : ∃ u, src = c :: u ∧ Cut w u ps := by
  obtain ⟨c, u, rfl⟩ := exists_cons_of_ne_nil hsrc
  obtain ⟨rfl, htail⟩ := List.cons.inj h.eq
  exact ⟨u, rfl, htail, h.ne⟩

end Cut

/-- A stage that begins with the next part where the current one is over: `C` is what it
takes to serve the header from the rest of a part and the parts behind it. -/
theorem serves_stage (hskip : e.skip = false) (hw : w ≠ []) (hcut : Cut w src ps)
    (hC : ∀ p ps, C [] (p :: ps) ↔ C p ps)
    (hnext : ∀ b behind p ps, p ≠ [] → Cut w p ps →
      (Serves text b (cacheDecodeExpand h1Conf behind e p) ps ↔ C p ps))
    (hnow : src ≠ [] → (Serves text b x ps ↔ C src ps)) :
    Serves text b (if src = [] then some e else x) ps ↔ C src ps := by
  by_cases hsrc : src = []
  · rw [if_pos hsrc]
    subst hsrc
    cases ps with
    | nil => exact absurd hcut.of_nil.symm hw
    | cons p ps =>
      rw [serves_some_cons hskip, hC]
      exact hnext _ _ p ps (hcut.ne p mem_cons_self) hcut.next
  · rw [if_neg hsrc]
    exact hnow hsrc

/-- If a text is cut short and goes on with a byte that it does not have, then this is no
beginning of it. -/
theorem not_prefix_of_cut {t : List UInt8} (hn : n < s.length) (hc : c ∉ s) :
    ¬ a ++ s.take n ++ c :: t <+: a ++ s ++ r := by
  obtain ⟨x, u, hdrop⟩ := exists_cons_of_ne_nil (drop_eq_nil_iff.not.mpr (by omega) :
    s.drop n ≠ [])
  have hs : a ++ s ++ r = a ++ s.take n ++ (x :: u ++ r) := by
    rw [← hdrop, append_assoc a (s.take n), ← append_assoc (s.take n),
      take_append_drop, append_assoc]
  rw [hs, prefix_append_right_inj, cons_append, cons_prefix_cons]
  rintro ⟨rfl, -⟩
  exact hc (mem_of_mem_drop (hdrop ▸ mem_cons_self))

lemma expandH2Data_h1 (behind : Nat → UInt8) (d : DcState) :
    d.expandH2Data h1Conf behind prev src = d :=
  if_neg fun h => Bool.false_ne_true h.2

lemma flexible_expand (behind : Nat → UInt8) (prev : List UInt8) :
    DcState.flexible (DcState.expandH2Data h1Conf behind prev) = DcState.flexible fun _ e => e :=
  congrArg _ (funext₂ fun _ => expandH2Data_h1 behind)

lemma flexible_fixup (behind : Nat → UInt8) (prev : List UInt8) :
    DcState.flexible (DcState.fixupH2Data h1Conf behind prev) = DcState.flexible fun _ e => e := rfl

lemma valueText_more (hd : d.desc = none) (h : src.length < d.length) :
    d.valueText h1Conf src = some { d with
      out := d.out ++ src, length := d.length - src.length, state := .valueText } := by
  have hmin : min src.length d.length = src.length := by omega
  rw [valueText]
  simp only [hd, hmin, any_none, Bool.false_and, isNone_none, Bool.true_or,
    expand, setLength, setState, take_length, if_true,
    if_neg Bool.false_ne_true]
  rw [if_pos (by omega)]

lemma valueText_done (hd : d.desc = none) (h : d.length ≤ src.length) :
    d.valueText h1Conf src = some { d with
      out := d.out ++ src.take d.length ++ sCrlf, length := 0 } := by
  have hmin : min src.length d.length = d.length := by omega
  rw [valueText]
  simp only [hd, hmin, any_none, Bool.false_and, isNone_none, Bool.true_or,
    expand, setLength, valueDone, if_true, if_neg Bool.false_ne_true,
    Nat.sub_self, ne_eq, not_true, if_false, h1Conf]

lemma valueText_serves_done (hdesc : d.desc = none) (hcut : Cut w src ps) (hcr : 0xD ∉ w)
    (hlen : d.length ≤ src.length) :
    Serves (d.out ++ w ++ sCrlf) b (d.valueText h1Conf src) ps ↔ d.length = w.length := by
  have hw : src.length + ps.flatten.length = w.length := by
    rw [← hcut.eq, length_append]
  rw [valueText_done hdesc hlen]
  constructor
  · intro hserves
    by_contra hne
    have htake : src.take d.length = w.take d.length := by
      rw [← hcut.eq, take_append_of_le_length hlen]
    rw [htake] at hserves
    exact not_serves_of_each (each_some (prefix_refl _))
      (not_prefix_of_cut (by omega) hcr) hserves
  · intro heq
    obtain rfl := hcut.eq_nil (by omega)
    rw [serves_some_nil, heq, hcut.of_nil, take_length]

/-- The text of a value, of which `w` is left: it is served if `w` has the length that was
read. -/
theorem valueText_serves (hskip : d.skip = false) (hdesc : d.desc = none) (hcut : Cut w src ps)
    (hcr : 0xD ∉ w) :
    Serves (d.out ++ w ++ sCrlf) b (d.valueText h1Conf src) ps ↔ d.length = w.length := by
  induction ps generalizing b d src w with
  | nil =>
    by_cases hlen : d.length ≤ src.length
    · exact valueText_serves_done hdesc hcut hcr hlen
    obtain rfl := hcut.of_nil
    rw [valueText_more hdesc (by omega), serves_some_nil]
    constructor
    · intro hout
      rw [append_assoc, append_cancel_left_eq, self_eq_append_right] at hout
      cases hout
    · intro heq
      omega
  | cons p ps ih =>
    by_cases hlen : d.length ≤ src.length
    · exact valueText_serves_done hdesc hcut hcr hlen
    have hw := congrArg List.length hcut.eq
    rw [flatten_cons, length_append] at hw
    have htext : d.out ++ w ++ sCrlf = d.out ++ src ++ (p ++ ps.flatten) ++ sCrlf := by
      rw [← hcut.eq, flatten_cons, ← append_assoc d.out src (p ++ _)]
    rw [valueText_more hdesc (by omega), htext]
    have hnext := ih (d := { d with
        out := d.out ++ src, length := d.length - src.length, state := .valueText })
      (b := fun i => b (i + 1)) hskip hdesc ⟨rfl, hcut.next.ne⟩
      (fun hmem => hcr (hcut.eq ▸ mem_append_right src hmem))
    refine (serves_some_cons ?_).trans (hnext.trans ?_)
    · exact hskip
    show d.length - src.length = (p ++ ps.flatten).length ↔ d.length = w.length
    omega

lemma valueRead_serves (hskip : d.skip = false) (hdesc : d.desc = none) (hcut : Cut w src ps)
    (hw : w ≠ []) (hcr : 0xD ∉ w) :
    Serves (d.out ++ w ++ sCrlf) b (d.valueRead h1Conf src) ps ↔ d.length = w.length := by
  refine serves_stage (C := fun _ _ => d.length = w.length) hskip hw hcut (fun _ _ => Iff.rfl) ?_ ?_
  · intro b behind p ps _ hcut
    exact valueText_serves (d := d.setState .valueText) hskip hdesc hcut hcr
  · intro _
    exact valueText_serves hskip hdesc hcut hcr

lemma value_empty (hcut : Cut [0] src ps) (hsrc : src ≠ []) :
    ¬ Serves (d.out ++ sCrlf) b (d.value h1Conf behind src) ps := by
  obtain ⟨u, rfl, hrest⟩ := hcut.uncons hsrc
  obtain rfl := hrest.eq_nil (Nat.zero_le _)
  obtain rfl := hrest.of_nil
  intro hserves
  rw [value, if_neg (by decide), expandH2Data_h1] at hserves
  have hout : d.out = d.out ++ sCrlf := Option.some.inj hserves
  rw [self_eq_append_right] at hout
  cases hout

/-- A stage that reads a length: how it reads the first byte, and how a later part goes on. -/
structure LenStage (st : HpackState) (k : (Nat → UInt8) → DcState → List UInt8 → Option DcState)
    (first : (Nat → UInt8) → DcState → List UInt8 → Option DcState) : Prop where
  first_eq : ∀ behind d c src, c.toNat % 128 ≠ 0 → first behind d (c :: src) =
    if c.toNat % 128 = 0x7F then
      d.flexible (fun _ e => e) DcState.setLength st (k behind) (getFlexible 0x7F 0 src)
    else k behind (d.setLength (c.toNat % 128)) src
  next_eq : ∀ behind d p, d.state = st → p ≠ [] → cacheDecodeExpand h1Conf behind d p =
    d.flexible (fun _ e => e) DcState.setLength st (k behind) (getContinue d.length d.shift p)

lemma value_stage : LenStage .valueLength (fun _ => DcState.valueRead h1Conf)
    (DcState.value h1Conf) where
  first_eq := by
    intro behind d c src _
    rw [value, flexible_expand, expandH2Data_h1]
    split
    next hc => rw [hc]
    next => rfl
  next_eq := by
    intro behind d p hst hp
    rw [cacheDecodeExpand, hst]
    rw [if_neg hp, readByte, hst]
    rw [flexible_expand]

lemma name_stage : LenStage .nameLength (DcState.nameRead h1Conf) (DcState.name h1Conf) where
  first_eq := by
    intro behind d c src hc
    rw [name, flexible_fixup]
    rw [if_neg hc]
    split
    next hmax => rw [hmax]
    next => rfl
  next_eq := by
    intro behind d p hst hp
    rw [cacheDecodeExpand, hst]
    rw [if_neg hp, readByte, hst]
    rfl

/-- What follows the length `n` at `o`, with the text `w` behind it: it needs the right
number, and `K` of the parts behind the current one. -/
structure LenNext (text out hdrData w : List UInt8) (n o : Nat)
    (k : (Nat → UInt8) → DcState → List UInt8 → Option DcState)
    (K : Nat → List (List UInt8) → Prop) : Prop where
  serves : ∀ b behind d src ps, At out hdrData d → d.length ≤ n → src ++ ps.flatten = w →
    (∀ p ∈ ps, p ≠ []) → (Serves text b (k behind d src) ps ↔
      d.length = n ∧ K (o + (writeInt n 0x7F).length + src.length) ps)
  later : ∀ i p ps, i < digitsOf n → (K (o + 1 + i) (p :: ps) ↔ K (o + 1 + i + p.length) ps)

lemma length_writeInt (hn : 127 ≤ n) : (writeInt n 0x7F).length = 1 + digitsOf n := by
  rw [writeInt, if_neg (by omega), length_cons, digitsOf]
  omega

/-- What a later part has to meet, as far as it is read: the bytes behind the first one are
not or-ed to a carry. -/
theorem pieceOk_iff (hn : 127 ≤ n) :
    PieceOk o n (o + 1 + i) len ↔
      ∀ k, i ≤ k → k < min (digitsOf n) (i + len) → i < k → OrOk n k := by
  constructor
  · intro h j _ hj hlt
    exact h hn (by omega) j (by omega) (by omega) (by omega)
  · intro h _ _ j hj hlt hend
    exact h j (by omega) (by omega) (by omega)

/-- What it takes to serve the header from the parts behind `i` bytes of the length, of which
`x` is known -/
def LenOk (n o : Nat) (K : Nat → List (List UInt8) → Prop) (i x : Nat) (ps : List (List UInt8)) :
    Prop :=
  n ≤ hpackLimit ∧ x = lenPart n i ∧ CutOk o n (o + 1 + i) ps ∧ K (o + 1 + i) ps

/-- A part is read, and if it does not end the length the next parts go on with it. -/
theorem LenNext.read (hk : LenNext text out hdrData w n o k K) (hn : 127 ≤ n) {x : Nat}
    {r : FlexRes} (hd : At out hdrData d) (hi : i < digitsOf n) (hps : ∀ q ∈ ps, q ≠ [])
    (hle : n ≤ hpackLimit → x ≤ lenPart n i) (hspec : LenSpec n i x ok p ps.flatten w r)
    (hmore : ∀ d, At out hdrData d → d.state = st → d.shift = 7 * (i + p.length) →
      FieldAt n (i + p.length) [] ps.flatten w →
      (n ≤ hpackLimit → d.length ≤ lenPart n (i + p.length)) →
      (Serves text b (some d) ps ↔ LenOk n o K (i + p.length) d.length ps)) :
    Serves text b (d.flexible (fun _ e => e) DcState.setLength st (k behind) r) ps ↔
      n ≤ hpackLimit ∧ x = lenPart n i ∧
        (∀ j, i ≤ j → j < min (digitsOf n) (i + p.length) → ok j) ∧
        CutOk o n (o + 1 + (i + p.length)) ps ∧ K (o + 1 + (i + p.length)) ps := by
  cases r with
  | done y src =>
    obtain ⟨hw, hlen, hlimit, hval⟩ := hspec
    have hmin : min (digitsOf n) (i + p.length) = digitsOf n := by omega
    have hend : o + (writeInt n 0x7F).length + src.length = o + 1 + (i + p.length) := by
      rw [length_writeInt hn]
      omega
    have hbehind := cutOk_of_behind (o := o) (n := n) (t := o + 1 + (i + p.length)) (by omega) ps
    have hyn : y ≤ n := by
      by_cases hlim : n ≤ hpackLimit
      · exact (hval hn hlim (hle hlim)).1
      · omega
    have hserves := hk.serves b behind (d.setLength y) src ps { hd with } hyn hw hps
    rw [hend] at hserves
    refine hserves.trans ?_
    rw [hmin]
    constructor
    · rintro ⟨hy, hK⟩
      have hlim : n ≤ hpackLimit := Nat.le_trans (Nat.le_of_eq hy.symm) hlimit
      obtain ⟨hx, hok⟩ := (hval hn hlim (hle hlim)).2.mp hy
      exact ⟨hlim, hx, hok, hbehind, hK⟩
    · rintro ⟨hlim, hx, hok, -, hK⟩
      exact ⟨(hval hn hlim (hle hlim)).2.mpr ⟨hx, hok⟩, hK⟩
  | more y m =>
    obtain ⟨hm, hnext, hval⟩ := hspec
    have hmin : min (digitsOf n) (i + p.length) = i + p.length := by
      have hlt := hnext.lt
      omega
    have hrest := hmore { d.setLength y with state := st, shift := m } { hd with } rfl hm hnext
      (fun hlim => (hval hn hlim (hle hlim)).1)
    refine hrest.trans ?_
    rw [hmin]
    constructor
    · rintro ⟨hlim, hy, hcut, hK⟩
      obtain ⟨hx, hok⟩ := (hval hn hlim (hle hlim)).2.mp hy
      exact ⟨hlim, hx, hok, hcut, hK⟩
    · rintro ⟨hlim, hx, hok, hcut, hK⟩
      exact ⟨hlim, (hval hn hlim (hle hlim)).2.mpr ⟨hx, hok⟩, hcut, hK⟩
  | drop => exact iff_of_false not_serves_none fun h => hspec ⟨hn, h.1, hle h.1⟩
  | undefined => exact iff_of_false not_serves_none fun h => hspec ⟨hn, h.1, hle h.1⟩

/-- The length is known as far as it was read, and the parts that follow do not spoil it. -/
theorem LenNext.continued (hstage : LenStage st k first) (hk : LenNext text out hdrData w n o k K)
    (hn : 127 ≤ n) (hd : At out hdrData d) (hstate : d.state = st) (hshift : d.shift = 7 * i)
    (hat : FieldAt n i [] ps.flatten w) (hps : ∀ p ∈ ps, p ≠ [])
    (hle : n ≤ hpackLimit → d.length ≤ lenPart n i) :
    Serves text b (some d) ps ↔ LenOk n o K i d.length ps := by
  induction ps generalizing b d i with
  | nil =>
    obtain ⟨c, hc, -⟩ := conts_eq_cons ((n - 127) / 128 ^ i)
    have heq := hat.eq
    rw [hc] at heq
    cases heq
  | cons p ps ih =>
    obtain ⟨hp, hps⟩ := forall_mem_cons.mp hps
    rw [serves_some_cons hd.skip, hstage.next_eq _ _ _ hstate hp, hshift, LenOk,
      hk.later i p ps hat.lt, CutOk, pieceOk_iff hn, and_assoc, Nat.add_assoc (o + 1)]
    exact hk.read hn hd hat.lt hps hle (getContinue_spec ⟨hat.lt, hat.eq⟩ hp)
      fun d hd hst hsh hat hle => ih hd hst hsh hat hps hle

lemma LenNext.flexible (hstage : LenStage st k first) (hk : LenNext text out hdrData w n o k K)
    (hn : 127 ≤ n) (hd : At out hdrData d) (hat : FieldAt n 0 src ps.flatten w)
    (hps : ∀ p ∈ ps, p ≠ []) :
    Serves text b (d.flexible (fun _ e => e) DcState.setLength st (k behind)
        (getFlexible 0x7F 0 src)) ps ↔
      n ≤ hpackLimit ∧ CutOk o n (o + 1 + src.length) ps ∧ K (o + 1 + src.length) ps := by
  refine (hk.read hn hd hat.lt hps (fun _ => Nat.le_of_eq (lenPart_zero n).symm)
    (getFlexible_spec hat)
    fun d hd hst hsh hat hle => hk.continued hstage hn hd hst hsh hat hps hle).trans ?_
  rw [Nat.zero_add, and_iff_right (lenPart_zero n).symm, and_iff_right fun _ _ _ => trivial]

lemma LenNext.stage_serves (hstage : LenStage st k first) (hk : LenNext text out hdrData w n o k K)
    (hn : 0 < n) (hd : At out hdrData d) (hsrc : src ≠ [])
    (hcut : Cut (writeInt n 0x7F ++ w) src ps) :
    Serves text b (first behind d src) ps ↔
      n ≤ hpackLimit ∧ CutOk o n (o + src.length) ps ∧ K (o + src.length) ps := by
  have hlen : ∀ (c : UInt8) u, o + (c :: u).length = o + 1 + u.length := by
    intro c u
    rw [length_cons]
    omega
  by_cases hsmall : n < 127
  · have hlim : n ≤ hpackLimit := Nat.le_trans (Nat.le_of_lt hsmall) (by decide)
    have hint : writeInt n 0x7F = [UInt8.ofNat n] := if_pos hsmall
    rw [hint] at hcut
    obtain ⟨u, rfl, hrest⟩ := hcut.uncons hsrc
    have hc : (UInt8.ofNat n).toNat % 128 = n := by
      rw [toNat_ofNat_lt (by omega), Nat.mod_eq_of_lt (by omega)]
    have hserves := hk.serves b behind (d.setLength n) u ps
      { hd with } (Nat.le_refl n) hrest.eq hrest.ne
    rw [hint, length_singleton] at hserves
    rw [hlen, hstage.first_eq _ _ _ _ (by omega), if_neg (by omega), hc]
    refine hserves.trans ⟨?_, ?_⟩
    · rintro ⟨-, hK⟩
      exact ⟨hlim, cutOk_of_lt hsmall _ _, hK⟩
    · rintro ⟨-, -, hK⟩
      exact ⟨rfl, hK⟩
  · rw [writeInt, if_neg hsmall] at hcut
    obtain ⟨u, rfl, hrest⟩ := hcut.uncons hsrc
    rw [hlen, hstage.first_eq _ _ _ _ (by decide), if_pos (by decide)]
    refine hk.flexible hstage (by omega) hd ⟨length_conts_pos _, ?_⟩ hrest.ne
    rw [Nat.pow_zero, Nat.div_one]
    exact hrest.eq

/-- What is needed of the value, which is at `o`, and of the parts from `t` on -/
def ValueOk (o : Nat) (value : List UInt8) (t : Nat) (ps : List (List UInt8)) : Prop :=
  value ≠ [] ∧ value.length ≤ hpackLimit ∧ CutOk o value.length t ps

section
lemma value_next (hne : value ≠ []) (hcr : 0xD ∉ value) (o : Nat) :
    LenNext (out ++ value ++ sCrlf) out [] value value.length o
      (fun _ => DcState.valueRead h1Conf) (fun _ _ => True) where
  serves := by
    intro b behind d src ps hd _ hcut hps
    rw [← hd.out_eq, and_true]
    exact valueRead_serves hd.skip hd.desc ⟨hcut, hps⟩ hne hcr
  later := fun _ _ _ _ => Iff.rfl

lemma value_serves (hd : At out [] d) (hsrc : src ≠ [])
    (hcut : Cut (writeInt value.length 0x7F ++ value) src ps) (hcr : 0xD ∉ value) :
    Serves (out ++ value ++ sCrlf) b (d.value h1Conf behind src) ps ↔
      ValueOk o value (o + src.length) ps := by
  by_cases hne : value = []
  · subst hne
    rw [append_nil, ← hd.out_eq]
    exact iff_of_false (value_empty hcut hsrc) fun h => h.1 rfl
  · refine ((value_next hne hcr o).stage_serves value_stage (length_pos_iff.mpr hne) hd hsrc
      hcut).trans ?_
    rw [ValueOk, and_true]
    exact (and_iff_right hne).symm

lemma valueOk_cons_of_le (h : t ≤ o) :
    ValueOk o value t (p :: ps) ↔ ValueOk o value (t + p.length) ps := by
  rw [ValueOk, ValueOk, cutOk_cons_of_le h]

lemma decode_value (hst : d.state = .value) (hsrc : src ≠ []) :
    cacheDecodeExpand h1Conf behind d src = d.value h1Conf behind src := by
  rw [cacheDecodeExpand, hst]
  rw [if_neg hsrc, readByte, hst]

lemma decode_name (hst : d.state = .name) (hsrc : src ≠ []) :
    cacheDecodeExpand h1Conf behind d src = d.name h1Conf behind src := by
  rw [cacheDecodeExpand, hst]
  rw [if_neg hsrc, readByte, hst]

lemma writeInt_ne_nil (n m : Nat) : writeInt n m ≠ [] := by
  rw [writeInt]
  split
  · exact cons_ne_nil _ _
  · exact cons_ne_nil _ _

lemma checkName_h1 (behind : Nat → UInt8) (d : DcState) :
    d.checkName h1Conf behind src =
      let e := { d with desc := none, hdrData := [], out := d.out ++ d.hdrData.flatten ++ sDlm }
      if src = [] then some (e.setState .value) else e.value h1Conf behind src := rfl

lemma append_ne_nil (n m : Nat) (w : List UInt8) : writeInt n m ++ w ≠ [] :=
  fun h => writeInt_ne_nil n m (append_eq_nil_iff.mp h).1

lemma checkName_serves (hd : At [] name d)
    (hcut : Cut (writeInt value.length 0x7F ++ value) src ps) (hcr : 0xD ∉ value) :
    Serves (name ++ sDlm ++ value ++ sCrlf) b (d.checkName h1Conf behind src) ps ↔
      ValueOk o value (o + src.length) ps := by
  have he : ∀ st, At (name ++ sDlm) [] { d with
      state := st, desc := none, hdrData := [], out := d.out ++ d.hdrData.flatten ++ sDlm } := by
    intro st
    refine ⟨hd.skip, rfl, ?_, rfl⟩
    rw [hd.out_eq, hd.hdrData_eq, nil_append]
  rw [checkName_h1]
  refine serves_stage (C := fun src ps => ValueOk o value (o + src.length) ps) hd.skip
    (append_ne_nil _ _ _) hcut (fun _ _ => valueOk_cons_of_le (Nat.le_refl o)) ?_ ?_
  · intro b behind p ps hp hcut
    rw [decode_value rfl hp]
    exact value_serves (he .value) hp hcut hcr
  · intro hsrc
    exact value_serves (he d.state) hsrc hcut hcr

lemma nameText_more (h : src.length < d.length) :
    d.nameText h1Conf behind src = some { d with
      state := .nameText, hdrData := d.hdrData ++ [src], length := d.length - src.length } := by
  have hmin : min src.length d.length = src.length := by omega
  rw [nameText, hmin, take_length]
  exact if_pos (show d.length - src.length ≠ 0 by omega)

lemma nameText_done (h : d.length ≤ src.length) :
    d.nameText h1Conf behind src = DcState.checkName h1Conf behind { d with
      state := .nameText, hdrData := d.hdrData ++ [src.take d.length], length := 0 }
      (src.drop d.length) := by
  have hmin : min src.length d.length = d.length := by omega
  rw [nameText, hmin, Nat.sub_self]
  exact if_neg (fun h => h rfl)

lemma led_checkName (hd : At [] name d) :
    Each (Led (name ++ sDlm)) (d.checkName h1Conf behind src) := by
  have hled : Led (name ++ sDlm) { d with
      desc := none, hdrData := [], out := d.out ++ d.hdrData.flatten ++ sDlm } := by
    have hout : d.out ++ d.hdrData.flatten ++ sDlm = name ++ sDlm := by
      rw [hd.out_eq, hd.hdrData_eq, nil_append]
    exact ⟨[], (append_nil _).trans hout.symm⟩
  rw [checkName_h1]
  exact each_ite (each_some hled) hled.value

section text
variable (hd : At [] head d) (hname : head ++ nm = name) (hlen : d.length ≤ nm.length)
  (hcut : Cut (nm ++ (writeInt value.length 0x7F ++ value)) src ps)
  (ht : t + nm.length = o + src.length) (hcolon : 0x3A ∉ name) (hcr : 0xD ∉ value)
include hd hname hlen hcut ht hcolon hcr

lemma nameText_serves_done (hsrc : d.length ≤ src.length) :
    Serves (name ++ sDlm ++ value ++ sCrlf) b (d.nameText h1Conf behind src) ps ↔
      d.length = nm.length ∧ ValueOk o value t ps := by
  have htake : src.take d.length = nm.take d.length := by
    have h := congrArg (List.take d.length) hcut.eq
    rwa [take_append_of_le_length hsrc, take_append_of_le_length hlen] at h
  have hat : At [] (head ++ nm.take d.length) { d with
      state := .nameText, hdrData := d.hdrData ++ [src.take d.length], length := 0 } := by
    refine ⟨hd.skip, hd.desc, hd.out_eq, ?_⟩
    rw [flatten_append, flatten_singleton, hd.hdrData_eq, htake]
  rw [nameText_done hsrc]
  by_cases heq : d.length = nm.length
  · have hrest : src.drop d.length ++ ps.flatten = writeInt value.length 0x7F ++ value := by
      have h := congrArg (List.drop d.length) hcut.eq
      rwa [drop_append_of_le_length hsrc, heq, drop_left, ← heq] at h
    rw [heq, take_length, hname, ← heq] at hat
    have hend : t = o + (src.drop d.length).length := by
      rw [length_drop]
      omega
    rw [and_iff_right heq, hend]
    exact checkName_serves hat ⟨hrest, hcut.ne⟩ hcr
  · refine iff_of_false ?_ fun h => heq h.1
    refine not_serves_of_each (led_checkName hat) ?_
    have htext : name ++ sDlm ++ value ++ sCrlf = head ++ nm ++ (sDlm ++ value ++ sCrlf) := by
      rw [hname, append_assoc, append_assoc, append_assoc]
    rw [htext]
    exact not_prefix_of_cut (by omega) fun hmem => hcolon (hname ▸ mem_append_right head hmem)

end text

/-- The text of a name, of which `nm` is left and the part up to `t` is read. -/
theorem nameText_serves (hd : At [] head d) (hname : head ++ nm = name)
    (hlen : d.length ≤ nm.length) (hcut : Cut (nm ++ (writeInt value.length 0x7F ++ value)) src ps)
    (ht : t + nm.length = o + src.length) (hcolon : 0x3A ∉ name) (hcr : 0xD ∉ value) :
    Serves (name ++ sDlm ++ value ++ sCrlf) b (d.nameText h1Conf behind src) ps ↔
      d.length = nm.length ∧ ValueOk o value t ps := by
  induction ps generalizing b behind d src head nm t with
  | nil =>
    refine nameText_serves_done hd hname hlen hcut ht hcolon hcr ?_
    have hall := congrArg List.length hcut.of_nil
    rw [length_append] at hall
    omega
  | cons p ps ih =>
    by_cases hsrc : d.length ≤ src.length
    · exact nameText_serves_done hd hname hlen hcut ht hcolon hcr hsrc
    have hdrop := hcut.next
    rw [drop_append_of_le_length (by omega)] at hdrop
    have htake : nm.take src.length = src := by
      have h := congrArg (List.take src.length) hcut.eq
      rwa [take_left, take_append_of_le_length (by omega), eq_comm] at h
    have hnm : (nm.drop src.length).length = nm.length - src.length := length_drop
    have hat : At [] (head ++ src) { d with
        state := .nameText, hdrData := d.hdrData ++ [src], length := d.length - src.length } :=
      { hd with hdrData_eq := by rw [flatten_append, flatten_singleton, hd.hdrData_eq] }
    have hjoin : head ++ src ++ nm.drop src.length = name := by
      rw [← hname, append_assoc]
      nth_rewrite 1 [← htake]
      rw [take_append_drop]
    have hlen' : d.length - src.length ≤ (nm.drop src.length).length := by omega
    have hnext := @ih _ _ _ (fun i => b (i + 1)) _ (t + p.length) (b 0) hat hjoin hlen' hdrop
      (by omega)
    rw [nameText_more (by omega), valueOk_cons_of_le (by omega)]
    refine (serves_some_cons ?_).trans (hnext.trans (and_congr_left fun _ => ?_))
    · exact hd.skip
    show d.length - src.length = _ ↔ _
    omega

lemma nameRead_serves (hd : At [] [] d) (hlen : d.length ≤ name.length)
    (hcut : Cut (name ++ (writeInt value.length 0x7F ++ value)) src ps) (hcolon : 0x3A ∉ name)
    (hcr : 0xD ∉ value) :
    Serves (name ++ sDlm ++ value ++ sCrlf) b (d.nameRead h1Conf behind src) ps ↔
      d.length = name.length ∧ ValueOk (o + name.length) value (o + src.length) ps := by
  refine serves_stage (C := fun src ps => d.length = name.length ∧
    ValueOk (o + name.length) value (o + src.length) ps) hd.skip ?_ hcut ?_ ?_ ?_
  · exact fun h => append_ne_nil _ _ _ (append_eq_nil_iff.mp h).2
  · exact fun _ _ => and_congr_right fun _ => valueOk_cons_of_le (Nat.le_add_right o _)
  · intro b behind p ps _ hcut
    exact nameText_serves (d := d.setState .nameText) { hd with } (nil_append name) hlen hcut
      (by omega) hcolon hcr
  · intro _
    exact nameText_serves hd (nil_append name) hlen hcut (by omega) hcolon hcr

lemma name_next (hcolon : 0x3A ∉ name) (hcr : 0xD ∉ value) (o : Nat) :
    LenNext (name ++ sDlm ++ value ++ sCrlf) [] []
      (name ++ (writeInt value.length 0x7F ++ value)) name.length o (DcState.nameRead h1Conf)
      (ValueOk (o + (writeInt name.length 0x7F).length + name.length) value) where
  serves := by
    intro b behind d src ps hd hlen hcut hps
    exact nameRead_serves hd hlen ⟨hcut, hps⟩ hcolon hcr
  later := by
    intro i p ps hi
    refine valueOk_cons_of_le ?_
    by_cases hn : 127 ≤ name.length
    · rw [length_writeInt hn]
      omega
    · have hzero : name.length - 127 = 0 := by omega
      rw [digitsOf, hzero, conts_of_le (Nat.zero_le _), length_singleton] at hi
      have hint := length_pos_iff.mpr (writeInt_ne_nil name.length 0x7F)
      omega

lemma name_serves (hd : At [] [] d) (hsrc : src ≠ []) (hname : name ≠ [])
    (hcut : Cut (writeInt name.length 0x7F ++ (name ++ (writeInt value.length 0x7F ++ value)))
      src ps)
    (hcolon : 0x3A ∉ name) (hcr : 0xD ∉ value) :
    Serves (name ++ sDlm ++ value ++ sCrlf) b (d.name h1Conf behind src) ps ↔
      name.length ≤ hpackLimit ∧ CutOk o name.length (o + src.length) ps ∧
        ValueOk (o + (writeInt name.length 0x7F).length + name.length) value (o + src.length) ps :=
  (name_next hcolon hcr o).stage_serves name_stage (length_pos_iff.mpr hname) hd hsrc
    hcut

section Indexed

variable (hd : At [] [] d) (hidx : d.index ≠ 0) (hle : d.index ≤ hpackStaticEntries)
  (hname : staticName d.index = some name)
  (hcut : Cut (writeInt value.length 0x7F ++ value) src ps) (hcr : 0xD ∉ value)
include hd hidx hle hname hcut hcr

lemma indexedName_serves :
    Serves (name ++ sDlm ++ value ++ sCrlf) b (d.indexedName h1Conf behind src) ps ↔
      ValueOk o value (o + src.length) ps := by
  rw [indexedName, if_neg (not_or.mpr ⟨hidx, Nat.not_lt.mpr hle⟩), hname,
    bind_some]
  exact checkName_serves ⟨hd.skip, hd.desc, hd.out_eq, flatten_singleton⟩ hcut hcr

lemma indexContinued_serves :
    Serves (name ++ sDlm ++ value ++ sCrlf) b (d.indexContinued h1Conf behind src) ps ↔
      ValueOk o value (o + src.length) ps := by
  refine serves_stage (C := fun src ps => ValueOk o value (o + src.length) ps) hd.skip
    (append_ne_nil _ _ _) hcut (fun _ _ => valueOk_cons_of_le (Nat.le_refl o)) ?_ ?_
  · intro b behind p ps _ hcut
    exact indexedName_serves (d := d.setState .indexedNameText) { hd with } hidx hle hname hcut hcr
  · intro _
    exact indexedName_serves hd hidx hle hname hcut hcr

end Indexed

lemma indexRead_indexed_eq (hidx : d.index ≠ 0) :
    d.indexRead h1Conf behind src = d.indexContinued h1Conf behind src := by
  rw [indexRead, indexContinued, if_pos hidx, if_pos hidx]

lemma init_at : At [] [] DcState.init := ⟨rfl, rfl, rfl, rfl⟩

lemma ready_literal (hname : name ≠ [])
    (hcut : Cut (0 :: (writeInt name.length 0x7F ++ (name ++
      (writeInt value.length 0x7F ++ value)))) src ps)
    (hsrc : src ≠ []) (hcolon : 0x3A ∉ name) (hcr : 0xD ∉ value) :
    Serves (name ++ sDlm ++ value ++ sCrlf) b (DcState.init.ready h1Conf behind src) ps ↔
      name.length ≤ hpackLimit ∧ CutOk 1 name.length src.length ps ∧
        ValueOk (1 + (writeInt name.length 0x7F).length + name.length) value src.length ps := by
  obtain ⟨u, rfl, hrest⟩ := hcut.uncons hsrc
  rw [length_cons, Nat.add_comm]
  refine serves_stage (e := DcState.init.setState .name) (C := fun src ps =>
    name.length ≤ hpackLimit ∧ CutOk 1 name.length (1 + src.length) ps ∧
      ValueOk (1 + (writeInt name.length 0x7F).length + name.length) value (1 + src.length) ps)
    rfl (append_ne_nil _ _ _) hrest (fun p ps => ?_) ?_ ?_
  · rw [length_nil, Nat.add_zero, cutOk_cons_of_le (Nat.le_refl 1),
      valueOk_cons_of_le (by omega)]
  · intro b behind p ps hp hcut
    rw [decode_name rfl hp]
    exact name_serves ⟨rfl, rfl, rfl, rfl⟩ hp hname hcut hcolon hcr
  · intro hu
    exact name_serves init_at hu hname hrest hcolon hcr

lemma read_second_byte (hidx : ¬ idx < 15) (hle : idx ≤ 61) :
    getFlexible 15 0 (UInt8.ofNat (idx - 15) :: src) = .done idx src ∧
      getContinue 15 0 (UInt8.ofNat (idx - 15) :: src) = .done idx src := by
  have hlimit : hpackLimit = 1048576 := rfl
  have hc : (UInt8.ofNat (idx - 15)).toNat = idx - 15 := toNat_ofNat_lt (by omega)
  have hsum : 15 + ((idx - 15) % 128) <<< 0 % 2 ^ 32 = idx := by
    rw [Nat.shiftLeft_zero]
    omega
  rw [getFlexible, getContinue, hc]
  rw [hsum, if_neg (by decide), if_neg (by omega), if_neg (by omega), if_neg (by decide),
    if_neg (by omega), if_neg (by omega)]
  exact ⟨rfl, rfl⟩

/-- The first call for an index that takes a second byte, which may be in the next part -/
theorem ready_indexed_long (hidx : ¬ idx < 15) (hle : idx ≤ hpackStaticEntries)
    (hname : staticName idx = some name)
    (hcut : Cut (UInt8.ofNat (idx - 15) :: (writeInt value.length 0x7F ++ value)) u ps)
    (hcr : 0xD ∉ value) :
    Serves (name ++ sDlm ++ value ++ sCrlf) b (DcState.init.ready h1Conf behind (0xF :: u)) ps ↔
      ValueOk 2 value (1 + u.length) ps := by
  have hzero : idx ≠ 0 := by omega
  have hready : DcState.init.ready h1Conf behind (0xF :: u) =
      DcState.init.flexible (fun _ e => e) setIndex .index
        (indexRead h1Conf behind) (getFlexible 15 0 u) := rfl
  rw [hready]
  cases u with
  | nil =>
    cases ps with
    | nil => cases hcut.eq
    | cons p ps =>
      obtain ⟨v, rfl, hrest⟩ := Cut.uncons hcut.next (hcut.ne p mem_cons_self)
      have hnext : cacheDecodeExpand h1Conf (b 0)
          { init with state := .index, index := 15 } (UInt8.ofNat (idx - 15) :: v) =
          indexContinued h1Conf (b 0)
            { init with state := .index, index := idx } v := by
        show flexible _ _ _ _ _ (getContinue 15 0 _) = _
        rw [(read_second_byte hidx hle).2]
        rfl
      refine (serves_some_cons rfl).trans ?_
      have hlen : 1 + ([] : List UInt8).length + (UInt8.ofNat (idx - 15) :: v).length =
          2 + v.length := by
        rw [length_nil, length_cons]
        omega
      rw [valueOk_cons_of_le (by decide), hlen]
      refine (iff_of_eq (congrArg (Serves _ _ · ps) hnext)).trans ?_
      exact indexContinued_serves ⟨rfl, rfl, rfl, rfl⟩ hzero hle hname hrest hcr
  | cons c v =>
    obtain ⟨_, ⟨⟩, hrest⟩ := hcut.uncons (cons_ne_nil c v)
    have hlen : 1 + (UInt8.ofNat (idx - 15) :: v).length = 2 + v.length := by
      rw [length_cons]
      omega
    rw [(read_second_byte hidx hle).1, hlen]
    show Serves _ _ ((DcState.init.setIndex idx).indexRead h1Conf behind v) _ ↔ _
    rw [indexRead_indexed_eq hzero]
    exact indexContinued_serves ⟨rfl, rfl, rfl, rfl⟩ hzero hle hname hrest hcr

lemma ready_indexed (hidx : idx ≠ 0) (hle : idx ≤ hpackStaticEntries)
    (hname : staticName idx = some name)
    (hcut : Cut (writeInt idx 0xF ++ (writeInt value.length 0x7F ++ value)) src ps)
    (hsrc : src ≠ []) (hcr : 0xD ∉ value) :
    Serves (name ++ sDlm ++ value ++ sCrlf) b (DcState.init.ready h1Conf behind src) ps ↔
      ValueOk (writeInt idx 0xF).length value src.length ps := by
  have hentries : hpackStaticEntries = 61 := rfl
  by_cases hsmall : idx < 15
  · have hint : writeInt idx 0xF = [UInt8.ofNat idx] := if_pos hsmall
    rw [hint] at hcut ⊢
    obtain ⟨u, rfl, hrest⟩ := hcut.uncons hsrc
    have hc : (UInt8.ofNat idx).toNat = idx := toNat_ofNat_lt (by omega)
    have hready : DcState.init.ready h1Conf behind (UInt8.ofNat idx :: u) =
        (DcState.init.setIndex idx).indexContinued h1Conf behind u := by
      rw [ready, hc, if_neg (by omega), Nat.mod_eq_of_lt (by omega), if_neg (by omega)]
      exact indexRead_indexed_eq hidx
    rw [hready, length_singleton, length_cons, Nat.add_comm]
    exact indexContinued_serves ⟨rfl, rfl, rfl, rfl⟩ hidx hle hname hrest hcr
  · have hint : writeInt idx 0xF = [0xF, UInt8.ofNat (idx - 15)] := by
      rw [writeInt, if_neg hsmall, conts_of_le (by omega)]
      rfl
    rw [hint] at hcut ⊢
    obtain ⟨u, rfl, hrest⟩ := hcut.uncons hsrc
    have hlen : (0xF :: u).length = 1 + u.length := by
      rw [length_cons, Nat.add_comm]
    rw [hlen]
    exact ready_indexed_long hsmall hle hname hrest hcr

end

/-- Where the length of the value is in the stored bytes. -/
def valueOff (hdr : CachedHdr) : Nat :=
  if hdr.hpackIdx ≠ 0 then (writeInt hdr.hpackIdx 0xF).length
  else 1 + (writeInt hdr.name.length 0x7F).length + hdr.name.length

def NameOk (hdr : CachedHdr) (parts : List (List UInt8)) : Prop :=
  hdr.hpackIdx = 0 → hdr.name.length ≤ hpackLimit ∧ CutOk 1 hdr.name.length 0 parts

lemma tfwLc_ne_colon (h : 0x3A ∉ s) : 0x3A ∉ s.map tfwLc := by
  intro hmem
  obtain ⟨c, hc, hlc⟩ := mem_map.mp hmem
  rw [tfwLc] at hlc
  split at hlc
  next hupper =>
    have hsum := congrArg UInt8.toNat hlc
    have hlo : 0x41 ≤ c.toNat := UInt8.le_iff_toNat_le.mp hupper.1
    have hhi : c.toNat ≤ 0x5a := UInt8.le_iff_toNat_le.mp hupper.2
    rw [UInt8.toNat_add] at hsum
    change (c.toNat + 32) % 256 = 58 at hsum
    omega
  next => exact h (hlc ▸ hc)

lemma ready_serves (hwf : hdr.Wf) (hcolon : hdr.hpackIdx = 0 → 0x3A ∉ hdr.name)
    (hcr : 0xD ∉ hdr.value) (hcut : p ++ ps.flatten = storedHdr hdr) (hp : p ≠ [])
    (hps : ∀ p ∈ ps, p ≠ []) (b : Nat → Nat → UInt8) (behind : Nat → UInt8) :
    Serves (h1Text hdr) b (DcState.init.ready h1Conf behind p) ps ↔
      NameOk hdr (p :: ps) ∧ ValueOk (valueOff hdr) hdr.value 0 (p :: ps) := by
  rw [valueOk_cons_of_le (Nat.zero_le _), Nat.zero_add, h1Text, NameOk, valueOff,
    cutOk_cons_of_le (Nat.zero_le 1), Nat.zero_add]
  by_cases hidx : hdr.hpackIdx = 0
  · have hname : hdr.name.map tfwLc ≠ [] := fun h => hwf.name_ne (map_eq_nil_iff.mp h)
    have hstored : p ++ ps.flatten = 0 :: (writeInt (hdr.name.map tfwLc).length 0x7F ++
        (hdr.name.map tfwLc ++ (writeInt hdr.value.length 0x7F ++ hdr.value))) := by
      rw [hcut, storedHdr, if_neg (not_not.mpr hidx), length_map]
      simp only [append_assoc]
      rfl
    rw [if_neg (not_not.mpr hidx), forall_prop_of_true hidx, and_assoc,
      ← @List.length_map _ _ hdr.name tfwLc]
    exact ready_literal hname ⟨hstored, hps⟩ hp (tfwLc_ne_colon (hcolon hidx)) hcr
  · obtain ⟨hle, hname⟩ := hwf.indexed hidx
    have hstored : p ++ ps.flatten = writeInt hdr.hpackIdx 0xF ++
        (writeInt hdr.value.length 0x7F ++ hdr.value) := by
      rw [hcut, storedHdr, if_pos hidx]
    rw [if_pos hidx, and_iff_right fun h => absurd h hidx]
    exact ready_indexed hidx hle hname ⟨hstored, hps⟩ hp hcr

lemma empty_first_part (ps : List (List UInt8)) :
    h2DecodeWrite h1Conf (fun _ _ => 0xFF) ([] :: ps) = none := rfl

/-- A stored header reaches an HTTP/1.1 client exactly if it has a value, its first part is
not empty, no length is beyond the limit of the decoder and no cut makes it or a byte of a
length to a carry. -/
theorem served_verbatim_iff {hdr : CachedHdr} (hwf : hdr.Wf)
    (hcolon : hdr.hpackIdx = 0 → 0x3A ∉ hdr.name) (hcr : 0xD ∉ hdr.value)
    {parts : List (List UInt8)} (hcut : parts.flatten = storedHdr hdr)
    (hparts : ∀ p ∈ parts.tail, p ≠ []) :
    (∀ behind, h2DecodeWrite h1Conf behind parts = some (h1Text hdr)) ↔
      parts.headD [] ≠ [] ∧ NameOk hdr parts ∧ ValueOk (valueOff hdr) hdr.value 0 parts := by
  cases parts with
  | nil =>
    refine iff_of_false (fun h => ?_) fun h => h.1 rfl
    have htext : [] = h1Text hdr := Option.some.inj (h fun _ _ => 0)
    cases (append_eq_nil_iff.mp htext.symm).2
  | cons p ps =>
    by_cases hp : p = []
    · subst hp
      refine iff_of_false (fun h => ?_) fun h => h.1 rfl
      cases (empty_first_part ps).symm.trans (h _)
    have hserves : ∀ behind, h2DecodeWrite h1Conf behind (p :: ps) = some (h1Text hdr) ↔
        NameOk hdr (p :: ps) ∧ ValueOk (valueOff hdr) hdr.value 0 (p :: ps) := by
      intro behind
      have hfirst : cacheDecodeExpand h1Conf (behind 0) init p =
          DcState.init.ready h1Conf (behind 0) p := if_neg hp
      refine (serves_some_cons (d := init) rfl).trans ?_
      rw [hfirst]
      exact ready_serves hwf hcolon hcr hcut hp hparts _ _
    rw [and_iff_right (show (p :: ps).headD [] ≠ [] from hp)]
    constructor
    · intro h
      exact (hserves fun _ _ => 0).mp (h _)
    · intro h behind
      exact (hserves behind).mpr h

theorem served_verbatim_two_parts :
    [[0, 3], ofAscii "x-a" ++ [1] ++ ofAscii "b"].flatten =
      storedHdr ⟨0, ofAscii "X-A", ofAscii "b"⟩ ∧
    ∀ behind, h2DecodeWrite h1Conf behind [[0, 3], ofAscii "x-a" ++ [1] ++ ofAscii "b"] =
      some (h1Text ⟨0, ofAscii "X-A", ofAscii "b"⟩) :=
  ⟨by decide,
    (served_verbatim_iff ⟨by decide, by decide⟩ (by decide) (by decide) (by decide) (by decide)).mpr
      ⟨by decide, fun _ => ⟨by decide, cutOk_of_lt (by decide) _ _⟩,
        by decide, by decide, cutOk_of_lt (by decide) _ _⟩⟩

theorem empty_value_not_ended :
    (∀ behind, h2DecodeWrite h1Conf behind [storedHdr ⟨0, ofAscii "x-a", []⟩] =
      some (ofAscii "x-a: ")) ∧ h1Text ⟨0, ofAscii "x-a", []⟩ = ofAscii "x-a: " ++ sCrlf :=
  ⟨fun _ => rfl, by decide⟩

end Tempesta.Cache
