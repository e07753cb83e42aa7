import Tempesta.Hpack.HuffmanBits

/-!
Decoding a Huffman string fragment by fragment. A call that runs out of bytes in
front of a table other than the first one loses its place, since the offset of the
table is not kept in the context; fragments that do not end there decode as the
string in one piece does.
-/

namespace Tempesta.Hpack

open List IterLib BitLib HuffmanState

def HuffmanState.append (s : HuffmanState) (more : List UInt8) : HuffmanState :=
  { s with src := s.src ++ more }

variable {offset : Nat} {need : Bool} {hp' hp : HuffmanCtx} {src src' more f head : List UInt8}
  {s s' : HuffmanState} {r : HuffmanStop} {n later : Nat} {c : UInt8} {fs : List (List UInt8)}
  {t : BitState} {res : HuffmanRes} {bs bs' : List Bool} {first : Option UInt8}

lemma refill_append (h : refill need hp src = some (hp', src')) (more : List UInt8) :
    refill need hp (src ++ more) = some (hp', src' ++ more) := by
  cases need with
  | false =>
    cases h
    rfl
  | true =>
    cases src with
    | nil => cases h
    | cons c src =>
      cases h
      rfl

lemma huffmanStep_append (more : List UInt8)
    (hs : ∀ hp offset out, huffmanStep s ≠ .inr (.noBytes hp offset out)) :
    huffmanStep (s.append more) = (huffmanStep s).map (·.append more) id := by
  obtain ⟨hp, src, offset, out⟩ := s
  unfold huffmanStep at hs ⊢
  by_cases hlong : offset < htSmall
  · simp only [if_pos hlong, append] at hs ⊢
    unfold huffmanLong at hs ⊢
    cases hr : refill (decide (hp.curr ≤ 0)) hp src with
    | none => exact absurd (by rw [hr]) (hs hp offset out)
    | some p =>
      obtain ⟨hp', src'⟩ := p
      rw [refill_append hr more]
      simp only
      split_ifs <;> rfl
  · simp only [if_neg hlong, append] at hs ⊢
    unfold huffmanShort at hs ⊢
    simp only at hs ⊢
    cases hr : refill (decide (hp.curr + (htNBits - htMBits) < 0))
        { hp with curr := hp.curr + (htNBits - htMBits) } src with
    | none => exact absurd (by rw [hr]) (hs _ offset out)
    | some p =>
      obtain ⟨hp', src'⟩ := p
      rw [refill_append hr more]
      simp only
      split_ifs <;> rfl

lemma ends_append_drop {out : List UInt8} (more : List UInt8)
    (h : Ends huffmanStep s (.drop hp out)) : Ends huffmanStep (s.append more) (.drop hp out) := by
  generalize hr : HuffmanStop.drop hp out = r at h
  induction h with
  | stop hs =>
    subst hr
    refine .stop ?_
    rw [huffmanStep_append more (by rw [hs]; exact nofun), hs]
    rfl
  | next hs _ ih =>
    refine .next ?_ (ih hr)
    rw [huffmanStep_append more (by rw [hs]; exact nofun), hs]
    rfl

lemma ends_append {out : List UInt8} (hinv : HuffmanInv later s)
    (h : Ends huffmanStep s (.noBytes hp offset out))
    (hmore : Ends huffmanStep ⟨hp.resumed offset, more, offset, out⟩ r) :
    Ends huffmanStep (s.append more) r := by
  generalize hstop : HuffmanStop.noBytes hp offset out = stop at h
  induction h with
  | stop hs =>
    subst hstop
    rw [((huffmanStep_turned hinv).noBytes _ _ _ hs).1]
    exact hmore
  | next hs _ ih =>
    refine .next ?_ (ih ((huffmanStep_turned hinv).next _ hs).1 hstop)
    rw [huffmanStep_append more (by rw [hs]; exact nofun), hs]
    rfl

lemma huffmanStep_setNext (h : Suspended later hp) (c : UInt8) (src out : List UInt8) :
    huffmanStep ⟨hp, c :: src, 0, out⟩ = huffmanStep ⟨setNext hp c, src, 0, out⟩ := by
  have hge := h.curr_ge
  have hle := h.curr_le
  have hcurr : (setNext hp c).curr = hp.curr + 8 := rfl
  simp only [huffmanStep, if_pos (show 0 < htSmall by decide), huffmanLong, hcurr,
    decide_eq_true hle, refill, if_true,
    decide_eq_false (show ¬ hp.curr + 8 ≤ 0 by omega), Bool.false_eq_true, if_false]

lemma ends_setNext (h : Suspended later hp) {out : List UInt8}
    (hends : Ends huffmanStep ⟨setNext hp c, src, 0, out⟩ r) :
    Ends huffmanStep ⟨hp, c :: src, 0, out⟩ r := by
  cases hends with
  | stop hs => exact .stop ((huffmanStep_setNext h c src out).trans hs)
  | next hs hrest => exact .next ((huffmanStep_setNext h c src out).trans hs) hrest

lemma huffmanDecode_ends (h : Suspended (f.length + later) hp) (hf : f ≠ []) (out : List UInt8) :
    ∃ r, Ends huffmanStep ⟨hp, f, 0, out⟩ r ∧ tfwHuffmanDecode hp out f = huffmanReturn r := by
  cases f with
  | nil => exact absurd rfl hf
  | cons c src =>
    have hge := h.curr_ge
    have hle := h.curr_le
    have hlen := h.length_eq
    have hinv : HuffmanInv later ⟨setNext hp c, src, 0, out⟩ := by
      refine ⟨?_, ?_, isTable_zero, ?_⟩
      · simp only [setNext]
        omega
      · simp only [setNext]
        omega
      · simp only [setNext, length_cons] at hlen ⊢
        omega
    have hleft : left ⟨setNext hp c, src, 0, out⟩ < 8 * (src.length + 2) := by
      rw [left_eq, length_byteBits]
      simp only [setNext, htNBits]
      omega
    obtain ⟨r, hr, hends⟩ := iterate_ends (fun s s' hi => (huffmanStep_turned hi).next s')
      hinv hleft
    refine ⟨r, ends_setNext h hends, ?_⟩
    rw [tfwHuffmanDecode, hr]
    rfl

def HuffmanStop.Ok (later : Nat) : HuffmanStop → Prop
  | .noBytes hp offset out =>
    HuffmanInv later ⟨hp.resumed offset, [], offset, out⟩ ∧ Suspended later hp ∧
      (¬ offset < htSmall → hp.curr < 0)
  | .drop _ _ => True

lemma ends_ok (hinv : HuffmanInv later s) (h : Ends huffmanStep s r) : r.Ok later := by
  refine h.invariant (fun s s' hi hs => ((huffmanStep_turned hi).next _ hs).1) ?_ hinv
  intro s r hi hs
  cases r with
  | noBytes hp offset out =>
    obtain ⟨hstate, hsusp, hshort⟩ := (huffmanStep_turned hi).noBytes _ _ _ hs
    exact ⟨hstate ▸ hi, hsusp, hshort⟩
  | drop hp out => trivial

lemma huffmanDecodeTail_total {out : List UInt8} (hge : -7 ≤ hp.curr)
    (hn : (hp.curr + htNBits).toNat < n) : ∃ r, huffmanDecodeTail n hp offset out = some r := by
  have h7 : htNBits = 7 := rfl
  induction n generalizing hp offset out with
  | zero => exact absurd hn (Nat.not_lt_zero _)
  | succ n ih =>
    rw [huffmanDecodeTail]
    simp only
    generalize htEntry (offset + ((hp.hctx <<< (-hp.curr).toNat) &&& htNMask)) = e
    by_cases hend : hp.curr = -htNBits
    · rw [if_pos hend]
      exact ⟨_, rfl⟩
    rw [if_neg hend]
    by_cases hsym : 0 < e.shift
    · rw [if_pos hsym]
      by_cases hfits : e.shift ≤ hp.curr + htNBits
      · rw [if_pos hfits]
        exact ih (by simp only; omega) (by simp only; omega)
      · rw [if_neg hfits]
        exact ⟨_, rfl⟩
    · rw [if_neg hsym]
      by_cases hneg : e.shift < 0
      · rw [if_pos hneg]
        exact ⟨_, rfl⟩
      · rw [if_neg hneg]
        exact ⟨_, rfl⟩

lemma huffmanReturn_total (h : r.Ok later) : ∃ res, huffmanReturn r = some res := by
  cases r with
  | drop hp out => exact ⟨_, rfl⟩
  | noBytes hp offset out =>
    have hge := h.2.1.curr_ge
    rw [huffmanReturn]
    split_ifs
    · exact ⟨_, rfl⟩
    · exact huffmanDecodeTail_total hge (Nat.lt_succ_self _)
    · rw [huffmanDecodeTailS]
      simp only
      split_ifs with hend hsym
      · exact ⟨_, rfl⟩
      · have h7 : htNBits = 7 := rfl
        exact huffmanDecodeTail_total (by simp only; omega) (Nat.lt_succ_self _)
      · exact ⟨_, rfl⟩

/-- The walk through the bits of the first bytes of a string does not end inside a
table for the rest of a longer code word: at most seven bits of the code word in
which the bytes end are there. -/
def cutClear (head : List UInt8) : Bool :=
  match iterate bitStep (8 * head.length + 1) ⟨0, byteBits head, []⟩ with
  | some (.wait s) => s.offset == 0
  | _ => true

lemma suspended_init (n : Nat) : Suspended n (huffmanInit n) :=
  ⟨by simp [huffmanInit, htNBits], by simp [huffmanInit], rfl⟩

lemma huffmanInv_init (head : List UInt8) (later : Nat) :
    HuffmanInv later ⟨huffmanInit (head.length + later), head, 0, []⟩ :=
  ⟨by simp [huffmanInit, htNBits], by simp [huffmanInit, htNBits], isTable_zero, rfl⟩

/-- The loops have not stopped in front of a table other than the first one. -/
def HuffmanStop.clear : HuffmanStop → Bool
  | .noBytes _ offset _ => offset == 0
  | .drop _ _ => true

lemma cutClear_eq (h : Ends huffmanStep ⟨huffmanInit (head.length + later), head, 0, []⟩ r) :
    cutClear head = r.clear := by
  have hinv := huffmanInv_init head later
  have hleft : left ⟨huffmanInit (head.length + later), head, 0, []⟩ <
      8 * head.length + 1 := by
    rw [left_eq, length_byteBits]
    simp [huffmanInit]
  obtain ⟨r', hr, hends⟩ := iterate_ends (fun s s' hi => (huffmanStep_turned hi).next s') hinv hleft
  rw [hends.unique h] at hr
  have hbits := iterate_simulate (fun s s' hi hs => ((huffmanStep_turned hi).next _ hs).1)
    (fun s hi => (huffmanStep_turned hi).toBits) hinv hr
  have hstart : toBits ⟨huffmanInit (head.length + later), head, 0, []⟩ =
      ⟨0, byteBits head, []⟩ := by
    simp [toBits, huffmanInit, bits]
  rw [cutClear, ← hstart, hbits]
  cases r <;> rfl

/-- Cuts of a string behind its first `head` bytes, at each end of a fragment but
the last one. -/
def CutsClear : List UInt8 → List (List UInt8) → Prop
  | _, [] => True
  | _, [_] => True
  | head, f :: fs => cutClear (head ++ f) = true ∧ CutsClear (head ++ f) fs

lemma decodeFragments_singleton (hp : HuffmanCtx) (out f : List UInt8) :
    decodeFragments hp out [f] = tfwHuffmanDecode hp out f := by
  rw [decodeFragments]
  cases h : tfwHuffmanDecode hp out f with
  | none => rfl
  | some r =>
    obtain ⟨ret, hp', out'⟩ := r
    cases ret <;> rfl

/-- The fragments behind `head` are decoded as `head` and they would be in one
piece. -/
theorem decodeFragments_ends {out : List UInt8} (hne : ∀ f ∈ fs, f ≠ []) (hfs : fs ≠ [])
    (hhead : Ends huffmanStep ⟨huffmanInit (head.length + fs.flatten.length), head, 0, []⟩
      (.noBytes hp 0 out))
    (hclear : CutsClear head fs) :
    ∃ r, Ends huffmanStep
        ⟨huffmanInit (head.length + fs.flatten.length), head ++ fs.flatten, 0, []⟩ r ∧
      decodeFragments hp out fs = huffmanReturn r := by
  induction fs generalizing head hp out with
  | nil => exact absurd rfl hfs
  | cons f fs ih =>
    have hinv := huffmanInv_init head (f :: fs).flatten.length
    have hsusp : Suspended (f :: fs).flatten.length hp := (ends_ok hinv hhead).2.1
    rw [flatten_cons, length_append] at hsusp
    obtain ⟨r, hr, hcall⟩ := huffmanDecode_ends hsusp (hne f mem_cons_self) out
    have hwhole := ends_append hinv hhead hr
    cases fs with
    | nil =>
      rw [flatten_singleton] at hwhole ⊢
      exact ⟨r, hwhole, (decodeFragments_singleton hp out f).trans hcall⟩
    | cons g gs =>
      have hlen : head.length + (f :: g :: gs).flatten.length =
          (head ++ f).length + (g :: gs).flatten.length := by
        rw [flatten_cons, length_append, length_append, Nat.add_assoc]
      have hcat : head ++ (f :: g :: gs).flatten = head ++ f ++ (g :: gs).flatten := by
        rw [flatten_cons, append_assoc]
      rw [hlen] at hwhole ⊢
      rw [hcat]
      cases r with
      | drop hp' out' =>
        refine ⟨.drop hp' out', ends_append_drop _ hwhole, ?_⟩
        rw [decodeFragments, hcall]
        rfl
      | noBytes hp' offset out' =>
        have hoff : offset = 0 := of_decide_eq_true ((cutClear_eq hwhole).symm.trans hclear.1)
        subst hoff
        have hpos : (g :: gs).flatten.length ≠ 0 := by
          have hg := hne g (mem_cons_of_mem f mem_cons_self)
          rw [flatten_cons, length_append]
          have := length_pos_of_ne_nil hg
          omega
        have hsusp' : Suspended (g :: gs).flatten.length hp' :=
          (ends_ok (huffmanInv_init (head ++ f) _) hwhole).2.1
        obtain ⟨r, hr, hdec⟩ := ih (fun f' hf' => hne f' (mem_cons_of_mem f hf'))
          (cons_ne_nil g gs) hwhole hclear.2
        refine ⟨r, hr, ?_⟩
        rw [decodeFragments, hcall, huffmanReturn,
          if_pos (by rw [hsusp'.length_eq]; exact hpos)]
        exact hdec

/-- The fragments give the symbols and the return code that the string in one piece
gives. -/
def FragmentsAgree (fs : List (List UInt8)) : Prop :=
  ∃ r r', decodeFragments (huffmanInit fs.flatten.length) [] fs = some r ∧
    tfwHuffmanDecode (huffmanInit fs.flatten.length) [] fs.flatten = some r' ∧
    r.ret = r'.ret ∧ r.out = r'.out

lemma ends_empty (n : Nat) :
    Ends huffmanStep ⟨huffmanInit n, [], 0, []⟩ (.noBytes (huffmanInit n) 0 []) :=
  .stop rfl

lemma huffmanDecode_whole (hsrc : src ≠ [])
    (h : Ends huffmanStep ⟨huffmanInit src.length, src, 0, []⟩ r) :
    tfwHuffmanDecode (huffmanInit src.length) [] src = huffmanReturn r := by
  obtain ⟨r', hr', hcall⟩ := @huffmanDecode_ends _ src 0 (suspended_init src.length) hsrc []
  rw [hcall, hr'.unique h]

lemma fragmentsAgree_of_cutsClear (hne : ∀ f ∈ fs, f ≠ []) (hfs : fs ≠ [])
    (hclear : CutsClear [] fs) : FragmentsAgree fs := by
  have hstart := ends_empty (([] : List UInt8).length + fs.flatten.length)
  obtain ⟨r, hr, hdec⟩ := decodeFragments_ends hne hfs hstart hclear
  rw [length_nil, Nat.zero_add] at hr hdec
  rw [nil_append] at hr
  have hflat : fs.flatten ≠ [] := by
    obtain ⟨f, hf⟩ := exists_mem_of_ne_nil fs hfs
    intro hnil
    exact hne f hf (flatten_eq_nil_iff.mp hnil f hf)
  obtain ⟨res, hres⟩ := huffmanReturn_total (ends_ok (huffmanInv_init fs.flatten 0) hr)
  exact ⟨res, res, hdec.trans hres, (huffmanDecode_whole hflat hr).trans hres, rfl, rfl⟩

/-- The symbol that a walk passes first, or that it passes none. -/
def firstSymbol : Nat → Nat → List Bool → Option (Option UInt8)
  | 0, _, _ => none
  | n + 1, offset, bits =>
    match bitStep ⟨offset, bits, []⟩ with
    | .inl ⟨offset, bits, []⟩ => firstSymbol n offset bits
    | .inl ⟨_, _, c :: _⟩ => some (some c)
    | .inr (.drop _) => some none
    | .inr (.wait _) => none

def HuffmanStop.out : HuffmanStop → List UInt8
  | .noBytes _ _ out => out
  | .drop _ out => out

lemma bitStep_out (bits : List Bool) (out : List UInt8) :
    bitStep ⟨offset, bits, out⟩ =
      (bitStep ⟨offset, bits, []⟩).map (fun s => { s with out := out ++ s.out })
        (fun
          | .wait s => .wait { s with out := out ++ s.out }
          | .drop o => .drop (out ++ o)) := by
  unfold bitStep
  simp only
  split_ifs <;> simp

lemma huffmanStep_out (hinv : HuffmanInv later s) (hs : huffmanStep s = .inl s') :
    ∃ added, bitStep ⟨s.offset, s.toBits.bits, []⟩ = .inl ⟨s'.offset, s'.toBits.bits, added⟩ ∧
      s'.out = s.out ++ added := by
  have hbits := (huffmanStep_turned hinv).toBits
  rw [hs, show s.toBits = ⟨s.offset, s.toBits.bits, s.out⟩ from rfl, bitStep_out] at hbits
  cases ht : bitStep ⟨s.offset, s.toBits.bits, []⟩ with
  | inr r =>
    rw [ht] at hbits
    cases hbits
  | inl t =>
    obtain ⟨offset, bits, added⟩ := t
    rw [ht] at hbits
    have heq := Sum.inl.inj hbits
    have hoffset : offset = s'.offset := congrArg BitState.offset heq
    have hrest : bits = s'.toBits.bits := congrArg BitState.bits heq
    rw [hoffset, hrest]
    exact ⟨added, rfl, (congrArg BitState.out heq).symm⟩

lemma bitStep_stop {r : BitStop} (h : bitStep t = .inr r) : r = .wait t ∨ r = .drop t.out := by
  unfold bitStep at h
  simp only at h
  split_ifs at h <;> cases h
  all_goals first | exact .inl rfl | exact .inr rfl

lemma huffmanStep_stop_out (hinv : HuffmanInv later s) (hs : huffmanStep s = .inr r) :
    r.out = s.out := by
  have hbits := (huffmanStep_turned hinv).toBits
  rw [hs] at hbits
  cases r with
  | noBytes hp offset out =>
    rcases bitStep_stop hbits with h | h
    · exact congrArg BitState.out (BitStop.wait.inj h)
    · cases h
  | drop hp out =>
    rcases bitStep_stop hbits with h | h
    · cases h
    · exact BitStop.drop.inj h

lemma ends_out (hinv : HuffmanInv later s) (h : Ends huffmanStep s r) :
    ∃ more, r.out = s.out ++ more := by
  induction h with
  | next hs _ ih =>
    obtain ⟨added, -, hout⟩ := huffmanStep_out hinv hs
    obtain ⟨more, hmore⟩ := ih ((huffmanStep_turned hinv).next _ hs).1
    exact ⟨added ++ more, by rw [hmore, hout, append_assoc]⟩
  | stop hs => exact ⟨[], by rw [huffmanStep_stop_out hinv hs, append_nil]⟩

lemma huffmanDecodeTail_out {out : List UInt8} (h : huffmanDecodeTail n hp offset out = some res) :
    ∃ more, res.out = out ++ more := by
  induction n generalizing hp offset out with
  | zero => cases h
  | succ n ih =>
    rw [huffmanDecodeTail] at h
    simp only at h
    generalize htEntry (offset + ((hp.hctx <<< (-hp.curr).toNat) &&& htNMask)) = e at h
    by_cases hsym : hp.curr ≠ -htNBits ∧ 0 < e.shift ∧ e.shift ≤ hp.curr + htNBits
    · rw [if_neg hsym.1, if_pos hsym.2.1, if_pos hsym.2.2] at h
      obtain ⟨more, hmore⟩ := ih h
      exact ⟨e.symbol :: more, by rw [hmore, append_assoc]; rfl⟩
    · refine ⟨[], ?_⟩
      rw [append_nil]
      by_cases hend : hp.curr = -htNBits
      · rw [if_pos hend] at h
        exact (congrArg HuffmanRes.out (Option.some.inj h)).symm
      rw [if_neg hend] at h
      by_cases hpos : 0 < e.shift
      · rw [if_pos hpos, if_neg fun hfits => hsym ⟨hend, hpos, hfits⟩] at h
        exact (congrArg HuffmanRes.out (Option.some.inj h)).symm
      · rw [if_neg hpos] at h
        split at h <;> exact (congrArg HuffmanRes.out (Option.some.inj h)).symm

lemma huffmanReturn_out (h : huffmanReturn r = some res) : ∃ more, res.out = r.out ++ more := by
  cases r with
  | drop hp out =>
    cases h
    exact ⟨[], (append_nil _).symm⟩
  | noBytes hp offset out =>
    rw [huffmanReturn] at h
    split_ifs at h
    · cases h
      exact ⟨[], (append_nil _).symm⟩
    · exact huffmanDecodeTail_out h
    · rw [huffmanDecodeTailS] at h
      simp only at h
      split_ifs at h
      · cases h
        exact ⟨[], (append_nil _).symm⟩
      · obtain ⟨more, hmore⟩ := huffmanDecodeTail_out h
        exact ⟨_ :: more, by rw [hmore, append_assoc]; rfl⟩
      · cases h
        exact ⟨[], (append_nil _).symm⟩

lemma firstSymbol_out (hinv : HuffmanInv later s) (hends : Ends huffmanStep s r)
    (hres : huffmanReturn r = some res)
    (hfirst : firstSymbol n s.offset s.toBits.bits = some first) :
    ∃ more, res.out = s.out ++ more ∧ more.head? = first := by
  induction n generalizing s with
  | zero => cases hfirst
  | succ n ih =>
    rw [firstSymbol] at hfirst
    cases hends with
    | stop hs =>
      have hbits := (huffmanStep_turned hinv).toBits
      rw [hs, show s.toBits = ⟨s.offset, s.toBits.bits, s.out⟩ from rfl, bitStep_out] at hbits
      cases ht : bitStep ⟨s.offset, s.toBits.bits, []⟩ with
      | inl t =>
        rw [ht] at hbits
        cases hbits
      | inr b =>
        rw [ht] at hbits hfirst
        cases b with
        | wait t => cases hfirst
        | drop o =>
          cases r with
          | noBytes hp offset out => cases Sum.inr.inj hbits
          | drop hp out =>
            cases hres
            refine ⟨[], ?_, Option.some.inj hfirst⟩
            rw [append_nil]
            exact huffmanStep_stop_out hinv hs
    | next hs hrest =>
      obtain ⟨hinv', -⟩ := (huffmanStep_turned hinv).next _ hs
      obtain ⟨added, hbits, hout⟩ := huffmanStep_out hinv hs
      rw [hbits] at hfirst
      cases added with
      | nil =>
        obtain ⟨more, hmore, hhead⟩ := ih hinv' hrest hfirst
        exact ⟨more, by rw [hmore, hout, append_nil], hhead⟩
      | cons c cs =>
        obtain ⟨more, hmore⟩ := ends_out hinv' hrest
        obtain ⟨more', hmore'⟩ := huffmanReturn_out hres
        refine ⟨c :: cs ++ more ++ more', ?_, Option.some.inj hfirst⟩
        rw [hmore', hmore, hout, append_assoc, append_assoc, append_assoc]

/-- From the table at `offset` and from the first table the bits lead to different
first symbols. -/
def walksApart (offset : Nat) (bs bs' : List Bool) : Bool :=
  match firstSymbol 6 offset bs, firstSymbol 6 0 bs' with
  | some first, some first' => first != first'
  | _, _ => false

lemma walksApart_long : ∀ offset ∈ [128, 256, 384, 512], ∀ n < 8, ∀ v < 2 ^ n,
    walksApart offset (bits n v ++ byteBits [0, 0]) (bits n v ++ byteBits [0, 0]) = true := by
  decide +kernel

lemma walksApart_short : ∀ k < 26, ∀ n < 3, ∀ v < 2 ^ (n + 4),
    walksApart (640 + 8 * k) (bits n v ++ byteBits [0, 0]) (bits (n + 4) v ++ byteBits [0, 0]) =
      true := by
  decide +kernel

lemma exists_first_of_walksApart (h : walksApart offset bs bs' = true) :
    ∃ first first', firstSymbol 6 offset bs = some first ∧ firstSymbol 6 0 bs' = some first' ∧
      first ≠ first' := by
  unfold walksApart at h
  split at h
  · exact ⟨_, _, ‹_›, ‹_›, bne_iff_ne.mp h⟩
  · cases h

/-- A fragment that ends in front of another table than the first one, and two zero
bytes: the walk that goes on and the one that starts again pass different symbols. -/
theorem walksApart_of_lost {out : List UInt8} (hok : HuffmanStop.Ok later (.noBytes hp offset out))
    (hoff : offset ≠ 0) :
    walksApart offset
      (HuffmanState.toBits ⟨hp.resumed offset, [0, 0], offset, out⟩).bits
      (HuffmanState.toBits ⟨hp, [0, 0], 0, out⟩).bits = true := by
  obtain ⟨hinv, hsusp, hneg⟩ := hok
  have hge := hinv.curr_ge
  have hle := hsusp.curr_le
  have htable := hinv.table
  have h7 : htNBits = 7 := rfl
  have h3 : htMBits = 3 := rfl
  have hs : htSmall = 640 := rfl
  unfold IsTable at htable
  simp only [toBits, HuffmanCtx.resumed] at hge htable ⊢
  by_cases hlong : offset < htSmall
  · simp only [if_pos hlong] at hge ⊢
    rw [← bits_mod (Nat.le_refl (hp.curr + htNBits).toNat)]
    refine walksApart_long offset ?_ _ (by omega) _ (Nat.mod_lt _ (Nat.two_pow_pos _))
    simp only [mem_cons, not_mem_nil, or_false]
    omega
  · simp only [if_neg hlong] at hge ⊢
    obtain ⟨k, hk⟩ : ∃ k, offset = 640 + 8 * k := ⟨(offset - 640) / 8, by omega⟩
    obtain ⟨n, hn⟩ : ∃ n : Nat, hp.curr + htMBits = n :=
      Int.eq_ofNat_of_zero_le (by omega)
    rw [show (hp.curr - (htNBits - htMBits) + htNBits).toNat = n by omega,
      show (hp.curr + htNBits).toNat = n + 4 by omega, hk,
      ← bits_mod (Nat.le_add_right n 4), ← bits_mod (Nat.le_refl (n + 4))]
    exact walksApart_short k (by omega) n (by omega) _ (Nat.mod_lt _ (Nat.two_pow_pos _))

lemma not_fragmentsAgree_of_lost (hhead : head ≠ []) (hlost : cutClear head = false) :
    ¬ FragmentsAgree [head, [0, 0]] := by
  obtain ⟨stop, hstop, hcall⟩ := @huffmanDecode_ends _ head 2 (suspended_init _) hhead []
  have hinv := huffmanInv_init head 2
  have hok := ends_ok hinv hstop
  have hclear := (cutClear_eq hstop).symm.trans hlost
  cases stop with
  | drop hp out => cases hclear
  | noBytes hp offset out =>
    have hoff : offset ≠ 0 := of_decide_eq_false hclear
    obtain ⟨first, first', hfirst, hfirst', hne⟩ :=
      exists_first_of_walksApart (walksApart_of_lost hok hoff)
    obtain ⟨hres, hsusp, -⟩ := hok
    have hinv₁ : HuffmanInv 0 ⟨hp.resumed offset, [0, 0], offset, out⟩ :=
      ⟨hres.curr_ge, hres.curr_le, hres.table, hres.length_eq⟩
    obtain ⟨r₁, -, hends₁⟩ :=
      iterate_ends (fun s s' hi => (huffmanStep_turned hi).next s') hinv₁ (Nat.lt_succ_self _)
    have hwhole := ends_append hinv hstop hends₁
    obtain ⟨r₂, hends₂, hcall₂⟩ := @huffmanDecode_ends _ [0, 0] 0 hsusp (by decide) out
    have hinv₂ : HuffmanInv 0 ⟨hp, [0, 0], 0, out⟩ :=
      ⟨hsusp.curr_ge, hsusp.curr_le.trans (by decide), isTable_zero, hsusp.length_eq⟩
    rintro ⟨res, res', hfrag, hone, -, hout⟩
    have hflat : [head, [0, 0]].flatten = head ++ [0, 0] := by
      rw [flatten_cons, flatten_singleton]
    rw [hflat, length_append] at hfrag hone
    have hpost : huffmanReturn (.noBytes hp offset out) = some ⟨.postpone, hp, out⟩ := by
      rw [huffmanReturn, if_pos (by rw [hsusp.length_eq]; decide)]
    have hnext : decodeFragments (huffmanInit (head.length + 2)) [] [head, [0, 0]] =
        decodeFragments hp out [[0, 0]] := by
      rw [decodeFragments, hcall, hpost]
      rfl
    have hres₂ : huffmanReturn r₂ = some res := by
      rw [← hcall₂, ← decodeFragments_singleton, ← hnext]
      exact hfrag
    have hres₁ : huffmanReturn r₁ = some res' := by
      rw [← hone, ← length_append, huffmanDecode_whole (by simp [hhead])]
      rw [length_append]
      exact hwhole
    obtain ⟨more₁, hmore₁, hhead₁⟩ := firstSymbol_out hinv₁ hends₁ hres₁ hfirst
    obtain ⟨more₂, hmore₂, hhead₂⟩ := firstSymbol_out hinv₂ hends₂ hres₂ hfirst'
    rw [hmore₁, hmore₂] at hout
    apply hne
    rw [← hhead₁, ← hhead₂, append_cancel_left hout]

/-- Fragments that all end clear of the longer tables decode as the string in one
piece, and a first fragment does so with everything that can follow it only if it
ends clear of them. -/
theorem huffman_fragments (head : List UInt8) (hhead : head ≠ []) :
    (∀ fs : List (List UInt8), (∀ f ∈ fs, f ≠ []) → CutsClear [] (head :: fs) →
      FragmentsAgree (head :: fs)) ∧
    ((∀ rest : List UInt8, rest ≠ [] → FragmentsAgree [head, rest]) ↔ cutClear head = true) := by
  have hagree : ∀ fs : List (List UInt8), (∀ f ∈ fs, f ≠ []) → CutsClear [] (head :: fs) →
      FragmentsAgree (head :: fs) := by
    intro fs hne hclear
    exact fragmentsAgree_of_cutsClear (forall_mem_cons.mpr ⟨hhead, hne⟩)
      (cons_ne_nil head fs) hclear
  refine ⟨hagree, ?_, ?_⟩
  · intro hall
    by_contra hlost
    exact not_fragmentsAgree_of_lost hhead (Bool.eq_false_iff.mpr hlost) (hall [0, 0] (by decide))
  · intro hclear rest hrest
    exact hagree [rest] (forall_mem_singleton.mpr hrest) ⟨hclear, trivial⟩

/-- `www` in three fragments. -/
theorem huffman_fragments_www : FragmentsAgree [[0xf1], [0xe3], [0xc3]] :=
  (huffman_fragments [0xf1] (by decide)).1 [[0xe3], [0xc3]] (by decide)
    ⟨by decide +kernel, by decide +kernel, trivial⟩

/-- The string `&0`, cut inside the code word of its first symbol. -/
def splitAmpersand : List (List UInt8) := [[0xf8], [0x07]]

theorem splitAmpersand_not_agree : ¬ FragmentsAgree splitAmpersand := by
  rintro ⟨r, r', hfrag, hone, -, hout⟩
  have hfrag' : (decodeFragments (huffmanInit splitAmpersand.flatten.length) []
      splitAmpersand).map HuffmanRes.out = some (ofAscii "Ea") := by decide +kernel
  have hone' : (tfwHuffmanDecode (huffmanInit splitAmpersand.flatten.length) []
      splitAmpersand.flatten).map HuffmanRes.out = some (ofAscii "&0") := by decide +kernel
  rw [hfrag] at hfrag'
  rw [hone] at hone'
  have heq := (Option.some.inj hfrag').symm.trans (hout.trans (Option.some.inj hone'))
  exact absurd heq (by decide)

end Tempesta.Hpack
