import Tempesta.Cache.Appended

/-!
Headers that no configured modification is for, on their way to an HTTP/2 client. They are
decoded all the same, and their representation is collected from behind the integers that
it is made of, not from the integers.
-/

namespace Tempesta.Cache

open List Hpack Http VarintLib DcState

variable {parts : List (List UInt8)} {hdr : CachedHdr} {conf : DcConf} {d : DcState}
  {mods : List HdrModsDesc} {s stored name src t rest part : List UInt8}
  {behind : Nat → Nat → UInt8} {a b c c' : UInt8}

lemma h2Write_eq : h2Write parts = parts.flatten := by
  have hfold : ∀ out, parts.foldl (fun out part => out ++ part) out = out ++ parts.flatten := by
    induction parts with
    | nil => intro out; rw [foldl_nil, flatten_nil, append_nil]
    | cons part parts ih =>
      intro out
      rw [foldl_cons, ih, flatten_cons, append_assoc]
  exact hfold []

/-- Once the response is to begin with bytes that the stored header does not begin with, it
does not become that header. -/
theorem Leads.differs (h : Leads conf s d) (hne : stored ≠ []) (hs : ¬ s <+: stored) :
    (Cache.decodeWriteFrom conf behind d parts).map DcState.out ≠ some stored := by
  intro heq
  obtain ⟨d', hd, hout⟩ := Option.map_eq_some_iff.mp heq
  obtain hled | ⟨⟨-, hempty, -⟩, -⟩ := h.decodeWriteFrom d' hd
  · exact hs (hout ▸ hled)
  · exact hne (hout ▸ hempty)

lemma map_tfwLc_map : (s.map tfwLc).map tfwLc = s.map tfwLc := by
  rw [map_map]
  exact map_congr_left fun c _ => tfwLc_tfwLc c

lemma static_name_wf : ∀ i < 62, ∀ name, staticName i = some name →
    (∀ c ∈ name.head?, 16 ≤ c.toNat) ∧ name.length < 32 := by
  have hall : ∀ i < 62, (staticName i).all fun name =>
      (name.head?.all fun c => 16 ≤ c.toNat) && name.length < 32 := by
    decide +kernel
  intro i hi name hname
  have h := hall i hi
  rw [hname, Option.all_some, Bool.and_eq_true, decide_eq_true_eq] at h
  refine ⟨fun c hc => ?_, h.2⟩
  rw [Option.mem_def.mp hc] at h
  exact of_decide_eq_true h.1

lemma indexRead_indexed {behind : Nat → UInt8} (hout : d.out = []) (hidx : d.index ≠ 0)
    (hle : d.index ≤ hpackStaticEntries) (hname : staticName d.index = some name)
    (hmods : ∀ m ∈ mods, m.name.map tfwLc ≠ name.map tfwLc) (hsrc : src ≠ []) :
    Each (Led (d.h2Data ++ name)) (d.indexRead ⟨true, mods⟩ behind src) := by
  have hshort := (static_name_wf _ (Nat.lt_succ_of_le hle) _ hname).2
  have hfind : mods.find? (fun m => stricmpEq [name] [m.name]) = none := by
    rw [find?_eq_none]
    intro m hm heq
    exact hmods m hm (map_eq_of_stricmpEq hshort heq).symm
  rw [indexRead, if_neg hsrc, if_pos hidx, indexedName,
    if_neg (not_or.mpr ⟨hidx, Nat.not_lt.mpr hle⟩), hname, Option.bind_some, checkName]
  rw [hfind, Option.any_none, if_neg Bool.false_ne_true, if_neg hsrc]
  apply Led.value
  rw [hout, nameOut]
  show d.h2Data ++ name <+: d.h2Data ++ [name].flatten
  rw [flatten_singleton]

lemma writeInt_eq_cons (index max : Nat) :
    ∃ rest, writeInt index max = UInt8.ofNat (min index max) :: rest := by
  rw [writeInt]
  split
  next h => exact ⟨[], by rw [Nat.min_eq_left (Nat.le_of_lt h)]⟩
  next h => exact ⟨_, by rw [Nat.min_eq_right (Nat.le_of_not_lt h)]⟩

/-- Behind the first part there may be any byte; this one does not begin a stored header. -/
def noise : Nat → UInt8 := fun _ => 0xFF

lemma not_cons_prefix (h : a ≠ b) : ¬ a :: s <+: b :: t :=
  fun hpre => h (cons_prefix_cons.mp hpre).1

lemma first_eq : cacheDecodeExpand ⟨true, mods⟩ noise DcState.init (c :: src) =
    DcState.init.ready ⟨true, mods⟩ noise (c :: src) := rfl

lemma first_short (hc : c.toNat < 15) :
    cacheDecodeExpand ⟨true, mods⟩ noise DcState.init (c :: src) =
      DcState.indexRead ⟨true, mods⟩ noise
        { DcState.init with index := c.toNat, h2Data := [src.headD 0xFF] } src := by
  have hmod : c.toNat % 16 = c.toNat := Nat.mod_eq_of_lt (by omega)
  have hpeek : peek noise src ((c :: src).length - src.length) = [src.headD 0xFF] := by
    rw [length_cons, Nat.add_sub_cancel_left]
    cases src with
    | nil => rfl
    | cons x src => rfl
  rw [first_eq, ready, if_neg (by omega), hmod, if_neg (by omega), fixupH2Data,
    if_pos rfl, hpeek]
  rfl

lemma first_long (hc : c.toNat = 15) (hc' : c'.toNat ≤ 46) :
    cacheDecodeExpand ⟨true, mods⟩ noise DcState.init (c :: c' :: src) =
      DcState.indexRead ⟨true, mods⟩ noise
        { DcState.init with index := 15 + c'.toNat, h2Data := peek noise src 2 } src := by
  have hflex : getFlexible 15 0 (c' :: src) = .done (15 + c'.toNat) src := by
    rw [getFlexible, if_neg (by decide), Nat.shiftLeft_zero, Nat.mod_eq_of_lt (by omega),
      Nat.mod_eq_of_lt (by omega)]
    rw [if_neg (by rw [hpackLimit]; omega), if_neg (by omega)]
  rw [first_eq, ready, if_neg (by omega), hc, if_pos rfl, hflex, flexible,
    fixupH2Data, if_pos rfl, length_cons, length_cons,
    show src.length + 1 + 1 - src.length = 2 by omega]
  rfl

lemma first_cut (hc : c.toNat = 15) :
    Each (Leads ⟨true, mods⟩ [0xFF]) (cacheDecodeExpand ⟨true, mods⟩ noise DcState.init [c]) := by
  rw [first_eq, ready, if_neg (by omega), hc, if_pos rfl]
  exact each_some (.inr ⟨⟨rfl, rfl, prefix_refl _⟩, rfl⟩)

lemma storedHdr_literal (h : hdr.hpackIdx = 0) : storedHdr hdr =
    0 :: (writeInt hdr.name.length 0x7F ++ hdr.name.map tfwLc ++
      (writeInt hdr.value.length 0x7F ++ hdr.value)) := by
  rw [storedHdr, if_neg (not_not.mpr h)]
  rfl

lemma storedHdr_short (h : hdr.hpackIdx ≠ 0) (hlt : hdr.hpackIdx < 15) : storedHdr hdr =
    UInt8.ofNat hdr.hpackIdx :: (writeInt hdr.value.length 0x7F ++ hdr.value) := by
  rw [storedHdr, if_pos h, writeInt, if_pos hlt]
  rfl

lemma storedHdr_long (hge : 15 ≤ hdr.hpackIdx) (hle : hdr.hpackIdx ≤ hpackStaticEntries) :
    storedHdr hdr = 15 :: UInt8.ofNat (hdr.hpackIdx - 15) ::
      (writeInt hdr.value.length 0x7F ++ hdr.value) := by
  rw [hpackStaticEntries] at hle
  rw [storedHdr, if_pos (by omega), writeInt, if_neg (by omega), conts_of_le (by omega)]
  rfl

lemma storedHdr_head (hdr : CachedHdr) :
    ∃ c rest, storedHdr hdr = c :: rest ∧ c.toNat < 16 := by
  by_cases hidx : hdr.hpackIdx = 0
  · exact ⟨0, _, storedHdr_literal hidx, by decide⟩
  · obtain ⟨rest, hint⟩ := writeInt_eq_cons hdr.hpackIdx 0xF
    refine ⟨_, _, by rw [storedHdr, if_pos hidx, hint, cons_append], ?_⟩
    rw [toNat_ofNat_lt (by omega)]
    omega

lemma not_noise_prefix (hdr : CachedHdr) : ¬ [0xFF] <+: storedHdr hdr := by
  obtain ⟨c, rest, heq, hlt⟩ := storedHdr_head hdr
  rw [heq]
  apply not_cons_prefix
  rintro rfl
  exact absurd hlt (by decide)

/-- The name in the static table of an indexed header begins with no byte of an integer. -/
theorem CachedHdr.Wf.name_head (hwf : hdr.Wf) (hidx : hdr.hpackIdx ≠ 0) :
    ∃ c rest, hdr.name.map tfwLc = c :: rest ∧ 16 ≤ c.toNat := by
  obtain ⟨hle, hname⟩ := hwf.indexed hidx
  cases hn : hdr.name.map tfwLc with
  | nil => exact absurd (map_eq_nil_iff.mp hn) hwf.name_ne
  | cons c rest =>
    rw [hn] at hname
    rw [hpackStaticEntries] at hle
    exact ⟨c, rest, rfl, (static_name_wf _ (by omega) _ hname).1 c rfl⟩

lemma first_part_literal (hwf : hdr.Wf) (hidx : hdr.hpackIdx = 0)
    (hcut : c :: src ++ rest = storedHdr hdr) :
    ∃ s, ¬ s <+: storedHdr hdr ∧
      Each (Leads ⟨true, mods⟩ s) (cacheDecodeExpand ⟨true, mods⟩ noise DcState.init
        (c :: src)) := by
  have hlen := length_pos_iff.mpr hwf.name_ne
  rw [storedHdr_literal hidx] at hcut ⊢
  obtain ⟨rfl, htail⟩ := List.cons.inj hcut
  rw [first_short (by decide)]
  refine ⟨[src.headD 0xFF], ?_, Ahead.indexRead (.inr ⟨rfl, rfl, prefix_refl _⟩)⟩
  apply not_cons_prefix
  cases src with
  | nil => decide
  | cons x src =>
    obtain ⟨more, hint⟩ := writeInt_eq_cons hdr.name.length 0x7F
    rw [hint] at htail
    obtain ⟨rfl, -⟩ := List.cons.inj htail
    intro hzero
    have hnat := congrArg UInt8.toNat hzero
    rw [headD_cons, toNat_ofNat_lt (by omega)] at hnat
    have hpos : min hdr.name.length 127 = 0 := hnat
    omega

section Indexed

variable (hwf : hdr.Wf) (hmods : ∀ m ∈ mods, m.name.map tfwLc ≠ hdr.name.map tfwLc)
  (hidx : hdr.hpackIdx ≠ 0) (hcut : c :: src ++ rest = storedHdr hdr)
include hwf hmods hidx hcut

lemma first_part_short (hlt : hdr.hpackIdx < 15) :
    ∃ s, ¬ s <+: storedHdr hdr ∧
      Each (Leads ⟨true, mods⟩ s) (cacheDecodeExpand ⟨true, mods⟩ noise DcState.init
        (c :: src)) := by
  obtain ⟨hle, hname⟩ := hwf.indexed hidx
  have hlower : ∀ m ∈ mods, m.name.map tfwLc ≠ (hdr.name.map tfwLc).map tfwLc := by
    rwa [map_tfwLc_map]
  obtain ⟨n, ns, hcons, hbig⟩ := hwf.name_head hidx
  have hstored := storedHdr_short hidx hlt
  rw [hstored] at hcut
  obtain ⟨rfl, htail⟩ := List.cons.inj hcut
  have hnat : (UInt8.ofNat hdr.hpackIdx).toNat = hdr.hpackIdx := toNat_ofNat_lt (by omega)
  rw [first_short (by rw [hnat]; exact hlt), hnat]
  cases src with
  | nil =>
    exact ⟨[0xFF], not_noise_prefix hdr, Ahead.indexRead (.inr ⟨rfl, rfl, prefix_refl _⟩)⟩
  | cons x src =>
    refine ⟨x :: hdr.name.map tfwLc, ?_, Led.each_leads
      (indexRead_indexed rfl hidx hle hname hlower (cons_ne_nil x src))⟩
    rw [hstored, ← htail, hcons]
    intro hpre
    obtain ⟨rfl, hpre⟩ := cons_prefix_cons.mp hpre
    obtain ⟨rfl, -⟩ := cons_prefix_cons.mp hpre
    rw [hnat] at hbig
    omega

lemma first_part_long (hge : 15 ≤ hdr.hpackIdx) :
    ∃ s, ¬ s <+: storedHdr hdr ∧
      Each (Leads ⟨true, mods⟩ s) (cacheDecodeExpand ⟨true, mods⟩ noise DcState.init
        (c :: src)) := by
  obtain ⟨hle, hname⟩ := hwf.indexed hidx
  have hlower : ∀ m ∈ mods, m.name.map tfwLc ≠ (hdr.name.map tfwLc).map tfwLc := by
    rwa [map_tfwLc_map]
  obtain ⟨n, ns, hcons, hbig⟩ := hwf.name_head hidx
  have hstored := storedHdr_long hge hle
  have hmax : hdr.hpackIdx ≤ 61 := hle
  rw [hstored] at hcut
  obtain ⟨rfl, htail⟩ := List.cons.inj hcut
  cases src with
  | nil => exact ⟨[0xFF], not_noise_prefix hdr, first_cut rfl⟩
  | cons c' src =>
    obtain ⟨rfl, htail⟩ := List.cons.inj htail
    have hnat : (UInt8.ofNat (hdr.hpackIdx - 15)).toNat = hdr.hpackIdx - 15 :=
      toNat_ofNat_lt (by omega)
    rw [first_long rfl (by omega), hnat, show 15 + (hdr.hpackIdx - 15) = hdr.hpackIdx by omega]
    cases src with
    | nil =>
      exact ⟨[0xFF], not_noise_prefix hdr,
        Ahead.indexRead (.inr ⟨rfl, rfl, [0xFF], rfl⟩)⟩
    | cons x src =>
      obtain ⟨y, hpeek⟩ : ∃ y, peek noise (x :: src) 2 = [x, y] := by
        cases src with
        | nil => exact ⟨0xFF, rfl⟩
        | cons y src => exact ⟨y, rfl⟩
      refine ⟨[x, y] ++ hdr.name.map tfwLc, ?_, ?_⟩
      · rw [hstored, ← htail, hcons]
        intro hpre
        obtain ⟨rfl, hpre⟩ := cons_prefix_cons.mp hpre
        obtain ⟨-, hpre⟩ := cons_prefix_cons.mp hpre
        obtain ⟨rfl, -⟩ := cons_prefix_cons.mp hpre
        exact absurd hbig (by decide)
      · rw [hpeek]
        exact Led.each_leads
          (indexRead_indexed rfl hidx hle hname hlower (cons_ne_nil x src))

end Indexed

/-- After the first part the response begins otherwise than the stored header, or will. -/
theorem first_part_differs (hwf : hdr.Wf)
    (hmods : ∀ m ∈ mods, m.name.map tfwLc ≠ hdr.name.map tfwLc)
    (hcut : part ++ rest = storedHdr hdr) :
    ∃ s, ¬ s <+: storedHdr hdr ∧
      Each (Leads ⟨true, mods⟩ s) (cacheDecodeExpand ⟨true, mods⟩ noise DcState.init part) := by
  cases part with
  | nil => exact ⟨[0xFF], not_noise_prefix hdr, each_none _⟩
  | cons c src =>
    by_cases hidx : hdr.hpackIdx = 0
    · exact first_part_literal hwf hidx hcut
    · by_cases hlt : hdr.hpackIdx < 15
      · exact first_part_short hwf hmods hidx hcut hlt
      · exact first_part_long hwf hmods hidx hcut (Nat.le_of_not_lt hlt)

/-- Whatever lies in memory behind the chunks. -/
theorem unmatched_never_intact {hdr : CachedHdr} (hwf : hdr.Wf) {mods : List HdrModsDesc}
    (hmods : ∀ m ∈ mods, m.name.map tfwLc ≠ hdr.name.map tfwLc) {parts : List (List UInt8)}
    (hcut : parts.flatten = storedHdr hdr) :
    ¬ ∀ behind, h2DecodeWrite ⟨true, mods⟩ behind parts = some (h2Write parts) := by
  intro hall
  have h := hall fun _ => noise
  rw [h2Write_eq, hcut] at h
  have hne : storedHdr hdr ≠ [] := by
    obtain ⟨c, rest, heq, -⟩ := storedHdr_head hdr
    rw [heq]
    exact cons_ne_nil c rest
  cases parts with
  | nil => exact hne hcut.symm
  | cons part parts =>
    rw [flatten_cons] at hcut
    obtain ⟨s, hs, hfirst⟩ := first_part_differs hwf hmods hcut
    rw [h2DecodeWrite, decodeWriteFrom, if_neg (show ¬ DcState.init.skip = true by decide)] at h
    obtain ⟨d, hd, hout⟩ := Option.map_eq_some_iff.mp h
    obtain ⟨e, he, hrest⟩ := Option.bind_eq_some_iff.mp hd
    apply (hfirst e he).differs hne hs
    rw [hrest, Option.map_some, hout]

/-- The header `x-a: b` in one chunk, with a modification configured for another one. -/
theorem unmatched_never_intact_one :
    ¬ ∀ behind, h2DecodeWrite ⟨true, [⟨ofAscii "x-b", none, false⟩]⟩ behind
      [storedHdr ⟨0, ofAscii "x-a", ofAscii "b"⟩] =
        some (h2Write [storedHdr ⟨0, ofAscii "x-a", ofAscii "b"⟩]) :=
  unmatched_never_intact ⟨by decide, by decide⟩ (by decide) flatten_singleton

theorem unmatched_header_garbled :
    storedHdr ⟨0, ofAscii "x-a", ofAscii "b"⟩ = [0, 3] ++ ofAscii "x-a" ++ [1] ++ ofAscii "b" ∧
    ∀ behind, h2DecodeWrite ⟨true, [⟨ofAscii "x-b", none, false⟩]⟩ behind
      [storedHdr ⟨0, ofAscii "x-a", ofAscii "b"⟩] =
        some ([3] ++ ofAscii "x" ++ ofAscii "x-a" ++ ofAscii "b" ++ ofAscii "b") := by
  refine ⟨by decide, fun _ => rfl⟩

end Tempesta.Cache
