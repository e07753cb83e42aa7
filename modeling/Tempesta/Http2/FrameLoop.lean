import Tempesta.Http2.FrameEffects

/-!
A call of `tfw_h2_frame_recv`. Every state takes at least one byte, so the loop ends;
it returns with a frame that is complete, or with the whole buffer read.
-/

namespace Tempesta.Http2

open List PostLib TfwH2Ctx

/-- The bytes that the machine has taken, in order: the preface, the frames that have
ended, and the frame in progress. -/
def TfwH2Ctx.consumed (h2 : TfwH2Ctx) : List UInt8 :=
  (if h2.off.state = .recvCliStartSeq then framePrefaceCliMagic.take h2.off.rlen
    else framePrefaceCliMagic) ++ h2.log.flatMap FrameRec.bytes ++ h2.cur.bytes

/-- The history of a call in which `b` has been read. -/
structure Since (h2 h2' : TfwH2Ctx) (b : List UInt8) : Prop where
  log : h2'.log = h2.log
  pieces : h2'.cur.pieces = h2.cur.pieces
  cuts : h2'.cur.cuts = h2.cur.cuts
  head : h2.cur.head.length = frameHeaderSize → h2'.cur.head = h2.cur.head
  skbHead : h2'.off.skbHead = h2.off.skbHead
  store : StoreRun h2.store h2'.store
  consumed : h2'.consumed = h2.consumed ++ b

variable {h2' h2 h2'' : TfwH2Ctx} {b' q buf rest : List UInt8} {r : TfwH2Ctx × Bool} {more : Bool}
  {s : FrameRecv}

lemma Since.trans {b : List UInt8} (h : Since h2 h2' b) (h' : Since h2' h2'' b') :
    Since h2 h2'' (b ++ b') where
  log := h'.log.trans h.log
  pieces := h'.pieces.trans h.pieces
  cuts := h'.cuts.trans h.cuts
  head := fun hlen => (h'.head (h.head hlen ▸ hlen)).trans (h.head hlen)
  skbHead := h'.skbHead.trans h.skbHead
  store := h.store.trans h'.store
  consumed := by rw [h'.consumed, h.consumed, append_assoc]

lemma Since.refl (h2 : TfwH2Ctx) : Since h2 h2 [] :=
  ⟨rfl, rfl, rfl, fun _ => rfl, rfl, .refl, (append_nil _).symm⟩

/-- What `tfw_h2_frame_recv` returns. -/
structure Returned (h2 : TfwH2Ctx) (q b : List UInt8) (r : FrameRecvRet) : Prop where
  since : Since h2 r.h2 b
  read : b ≠ []
  acks : r.h2.acks = h2.acks +
    if r.complete = true ∧ r.h2.off.state = .recvFrameSettings then 1 else 0
  rlen : r.complete = true → r.h2.off.rlen = 0
  started : r.complete = true → r.h2.off.state ≠ .recvCliStartSeq
  ignored : h2.off.state = .ignoreFrameData → r.h2.off.state = .ignoreFrameData
  exited : r.complete = true → Exited r.h2 (q ++ b)
  postponed : r.complete = false → GoodAt r.h2 (q ++ b) ∧ Room r.h2.off ∧ r.rest = [] ∧
    (r.h2.off.state = .recvCliStartSeq → r.h2.log = [])

section Step

variable {b : List UInt8}

lemma GoodAt.srvc_le (h : GoodAt h2 q) (hs : h2.off.state.srvc = true) :
    frameToRead h2.off ≤ frameHeaderSize := by
  rcases phase_cases _ _ h.phase with ⟨hst, -⟩ | ⟨hst | hst, -⟩ | hf
  · rw [hst] at hs
    cases hs
  · simp only [frameToRead, hst, Nat.le_refl]
  · simp only [frameToRead, hst, Nat.le_refl]
  · rw [hf.frameToRead]
    have hd := hf.detail
    have h9 : frameHeaderSize = 9 := rfl
    unfold Detail at hd
    cases hst : h2.off.state <;> rw [hst] at hd hs <;>
      first | exact absurd hd id | omega | cases hs

lemma consumed_of_start (h2 : TfwH2Ctx) (h : h2.off.state = .recvCliStartSeq)
    (hlog : h2.log = []) (hcur : h2.cur.bytes = []) :
    h2.consumed = framePrefaceCliMagic.take h2.off.rlen := by
  unfold TfwH2Ctx.consumed
  rw [if_pos h, hlog, hcur, append_nil]
  exact append_nil _

lemma consumed_of_not_start (h2 : TfwH2Ctx) (h : h2.off.state ≠ .recvCliStartSeq) :
    h2.consumed = framePrefaceCliMagic ++ h2.log.flatMap FrameRec.bytes ++ h2.cur.bytes := by
  unfold TfwH2Ctx.consumed
  rw [if_neg h]

lemma GoodAt.consumed_read (h : GoodAt h2 q) (b : List UInt8)
    (hlog : h2.off.state = .recvCliStartSeq → h2.log = [])
    (hmagic : h2.off.state = .recvCliStartSeq →
      (framePrefaceCliMagic.drop h2.off.rlen).take b.length = b) :
    (h2.fsmRead b).consumed = h2.consumed ++ b := by
  rcases phase_cases _ _ h.phase with ⟨hst, ha⟩ | ⟨hst, ha⟩ | hf
  · have hcur : (h2.fsmRead b).cur = h2.cur := by
      simp only [fsmRead, hst, FrameRec.read]
    have hnil : h2.cur.bytes = [] := by
      rw [FrameRec.bytes, ha.head, ha.payload]
      rfl
    rw [consumed_of_start h2 hst (hlog hst) hnil,
      consumed_of_start (h2.fsmRead b) hst (hlog hst) (hcur ▸ hnil)]
    show framePrefaceCliMagic.take (h2.off.rlen + b.length) = _
    rw [take_add, hmagic hst]
  · have hns : h2.off.state ≠ .recvCliStartSeq := by
      rcases hst with hst | hst <;> rw [hst] <;> decide
    have hcur : (h2.fsmRead b).cur = { h2.cur with head := h2.cur.head ++ b } := by
      rcases hst with hst | hst <;> simp only [fsmRead, hst, FrameRec.read]
    rw [consumed_of_not_start h2 hns, consumed_of_not_start (h2.fsmRead b) hns, hcur]
    show _ ++ ((h2.cur.head ++ b) ++ h2.cur.payload) = _ ++ (h2.cur.head ++ h2.cur.payload) ++ b
    rw [ha.payload, append_nil, append_nil, append_assoc, append_assoc,
      append_assoc]
    rfl
  · have hns : h2.off.state ≠ .recvCliStartSeq := by
      intro hst
      have hd := hf.detail
      unfold Detail at hd
      rw [hst] at hd
      exact hd
    have hcur : (h2.fsmRead b).cur = { h2.cur with payload := h2.cur.payload ++ b } :=
      read_of_detail hf.detail b
    rw [consumed_of_not_start h2 hns, consumed_of_not_start (h2.fsmRead b) hns, hcur]
    show _ ++ (h2.cur.head ++ (h2.cur.payload ++ b)) = _ ++ (h2.cur.head ++ h2.cur.payload) ++ b
    rw [← append_assoc h2.cur.head, ← append_assoc]
    rfl

lemma GoodAt.read_hdr (h : GoodAt h2 q) (hroom : Room h2.off)
    (hhead : h2.cur.head.length = frameHeaderSize) : (h2.fsmRead b).cur.head = h2.cur.head := by
  rcases phase_cases _ _ h.phase with ⟨-, hp⟩ | ⟨hs, hp⟩ | hf
  · rw [hp.head] at hhead
    cases hhead
  · unfold Room frameToRead at hroom
    rw [hp.rlen, hhead] at hroom
    rcases hs with hs | hs
    · rw [hs] at hroom
      exact absurd hroom (Nat.lt_irrefl _)
    · rw [hs] at hroom
      exact absurd hroom (Nat.lt_irrefl _)
  · simp only [fsmRead, read_of_detail hf.detail]

lemma Since.read (h : GoodAt h2 q) (hroom : Room h2.off) (b : List UInt8)
    (hlog : h2.off.state = .recvCliStartSeq → h2.log = [])
    (hmagic : h2.off.state = .recvCliStartSeq →
      (framePrefaceCliMagic.drop h2.off.rlen).take b.length = b) :
    Since h2 (h2.fsmRead b) b := by
  refine ⟨rfl, ?_, ?_, h.read_hdr hroom, rfl, .refl, h.consumed_read b hlog hmagic⟩
  · cases hst : h2.off.state <;> simp only [fsmRead, hst, FrameRec.read]
  · cases hst : h2.off.state <;> simp only [fsmRead, hst, FrameRec.read]

lemma GoodAt.head_length (h : GoodAt h2 q) (hdone : h2.off.rlen = frameToRead h2.off)
    (hns : h2.off.state ≠ .recvCliStartSeq) : h2.cur.head.length = frameHeaderSize := by
  rcases phase_cases _ _ h.phase with ⟨hst, -⟩ | ⟨hst, ha⟩ | hf
  · exact absurd hst hns
  · rw [← ha.rlen, hdone]
    rcases hst with hst | hst <;> simp only [frameToRead, hst]
  · exact hf.head

lemma Done.not_start (h : Done h2 r) (hgood : GoodAt h2 q)
    (hdone : h2.off.rlen = frameToRead h2.off) (hgoes : Goes q r) :
    r.1.off.state ≠ .recvCliStartSeq := by
  by_cases hst : h2.off.state = .recvCliStartSeq
  · rw [(h.start hst).2]
    nofun
  cases hr : r.2 with
  | false =>
    rw [h.exit hr]
    exact hst
  | true =>
    intro hst'
    unfold Goes at hgoes
    rw [hr, if_pos rfl] at hgoes
    have hphase := hgoes.1.phase
    unfold Phase at hphase
    rw [show TfwH2Ctx.off { r.1 with off.rlen := 0 } =
      { r.1.off with rlen := 0 } from rfl] at hphase
    simp only [hst'] at hphase
    have hhead : h2.cur.head = [] := by
      have := hphase.head
      rw [h.cur] at this
      exact this
    have hlen := hgood.head_length hdone hst
    rw [hhead] at hlen
    cases hlen

lemma Done.since (h : Done h2 r) (hgood : GoodAt h2 q) (hdone : h2.off.rlen = frameToRead h2.off)
    (hgoes : Goes q r) (hlog : h2.off.state = .recvCliStartSeq → h2.log = []) :
    Since h2 { r.1 with off.rlen := 0 } [] := by
  have hbytes : r.1.cur.bytes = h2.cur.bytes := by
    rw [h.cur]
    rfl
  have hns := h.not_start hgood hdone hgoes
  refine ⟨h.log, ?_, ?_, fun _ => ?_, h.skbHead, h.store, ?_⟩
  · show r.1.cur.pieces = h2.cur.pieces
    rw [h.cur]
  · show r.1.cur.cuts = h2.cur.cuts
    rw [h.cur]
  · show r.1.cur.head = h2.cur.head
    rw [h.cur]
  rw [consumed_of_not_start { r.1 with off.rlen := 0 } hns, append_nil]
  show framePrefaceCliMagic ++ r.1.log.flatMap FrameRec.bytes ++ r.1.cur.bytes = _
  rw [h.log, hbytes]
  by_cases hst : h2.off.state = .recvCliStartSeq
  · have ha : AtStart h2.off h2.cur := by
      have hp := hgood.phase
      unfold Phase at hp
      rw [hst] at hp
      exact hp
    have hnil : h2.cur.bytes = [] := by
      rw [FrameRec.bytes, ha.head, ha.payload]
      rfl
    rw [consumed_of_start h2 hst (hlog hst) hnil, hlog hst, hnil, hdone]
    simp only [frameToRead, hst]
    decide
  · rw [consumed_of_not_start _ hst]

end Step

/-- The invariant of the loop: there is something to read, and room for it. -/
structure Ready (s : FrameRecv) (q : List UInt8) : Prop where
  good : GoodAt s.h2 q
  room : Room s.h2.off
  log : s.h2.off.state = .recvCliStartSeq → s.h2.log = []
  buf : s.buf ≠ []

lemma GoodAt.fresh {b : List UInt8} (h : GoodAt h2 q) (hb : b ≠ [])
    (happ : h2.off.state.app = true) :
    h2.off.dataOff < (h2.off.skbHead.flatten ++ (q ++ b)).length := by
  have hq := h.queue
  unfold Queue at hq
  have hle : h2.off.dataOff ≤ (h2.off.skbHead.flatten ++ q).length := by
    cases hst : h2.off.state with
    | recvHeader | recvCont | recvData =>
      rw [hst] at hq
      exact hq.2.1
    | _ =>
      rw [hst] at happ
      cases happ
  have hpos := length_pos_of_ne_nil hb
  rw [← append_assoc, length_append]
  omega

lemma Exited.rlen (h : Exited h2 q) : Exited { h2 with off.rlen := 0 } q where
  toCore := { h with }
  closed := h.closed
  owed := h.owed
  settings := h.settings
  noAck := h.noAck
  app := fun happ =>
    let h' := h.app happ
    ⟨h'.isApp, h'.padlen, h'.read, h'.plen, h'.length, h'.dataOff, h'.queue, h'.past, h'.lost⟩
  other := h.other

/-- The data `b` that a state takes from the buffer. -/
structure Taken (s : FrameRecv) (q b rest : List UInt8) : Prop where
  split : b ++ rest = s.buf
  ne : b ≠ []
  good : GoodAt (s.h2.fsmRead b) (q ++ b)
  since : Since s.h2 (s.h2.fsmRead b) b

/-- All that the state reads has been read. -/
structure Filled (s : FrameRecv) (q b rest : List UInt8) : Prop extends Taken s q b rest where
  done : (s.h2.fsmRead b).off.rlen = frameToRead (s.h2.fsmRead b).off
  fresh : s.h2.off.state.app = true →
    s.h2.off.dataOff < (s.h2.off.skbHead.flatten ++ (q ++ b)).length

/-- What one state of the machine can do. -/
inductive FrameStep (s : FrameRecv) (q : List UInt8) :
    FrameRecv ⊕ Except H2Stop FrameRecvRet → Prop
  | drop {e} (he : H2Stop.IsDrop e) : FrameStep s q (.inr (.error e))
  | part {b} (h : Taken s q b []) (hroom : Room (s.h2.fsmRead b).off) :
      FrameStep s q (.inr (.ok ⟨false, s.h2.fsmRead b, []⟩))
  | failed {b rest e} (h : Filled s q b rest) (hx : (s.h2.fsmRead b).frameDone = .error e) :
      FrameStep s q (.inr (.error e))
  | exit {b rest h2'} (h : Filled s q b rest)
      (hx : (s.h2.fsmRead b).frameDone = .ok (h2', false)) :
      FrameStep s q (.inr (.ok ⟨true, { h2' with off.rlen := 0 }, rest⟩))
  | last {b h2'} (h : Filled s q b []) (hx : (s.h2.fsmRead b).frameDone = .ok (h2', true)) :
      FrameStep s q (.inr (.ok ⟨false, { h2' with off.rlen := 0 }, []⟩))
  | next {b rest h2'} (h : Filled s q b rest) (hrest : rest ≠ [])
      (hx : (s.h2.fsmRead b).frameDone = .ok (h2', true)) :
      FrameStep s q (.inl ⟨{ h2' with off.rlen := 0 }, rest⟩)

lemma frameRecvStep_cases (s : FrameRecv) (h : Ready s q) : FrameStep s q (frameRecvStep s) := by
  obtain ⟨h2, buf⟩ := s
  obtain ⟨hgood, hroom, hlog, hbuf⟩ := h
  replace hgood : GoodAt h2 q := hgood
  replace hroom : h2.off.rlen < frameToRead h2.off := hroom
  unfold frameRecvStep
  simp only
  by_cases hbug : h2.off.state.srvc = true ∧ frameHeaderSize < frameToRead h2.off
  · exact absurd (hgood.srvc_le hbug.1) (Nat.not_le.mpr hbug.2)
  rw [if_neg hbug]
  generalize hn : min (frameToRead h2.off - h2.off.rlen) buf.length = n
  have hlen : (buf.take n).length = n := by
    rw [length_take]
    omega
  have hpos : buf.length ≠ 0 := fun h => hbuf (length_eq_zero_iff.mp h)
  have hne : buf.take n ≠ [] := by
    intro h
    rw [h, length_nil] at hlen
    omega
  by_cases hmagic : h2.off.state = .recvCliStartSeq ∧
      (framePrefaceCliMagic.drop h2.off.rlen).take n ≠ buf.take n
  · rw [if_pos hmagic]
    exact .drop trivial
  rw [if_neg hmagic]
  push Not at hmagic
  have htaken : Taken ⟨h2, buf⟩ q (buf.take n) (buf.drop n) := by
    refine ⟨take_append_drop n buf, hne, hgood.read (by omega), ?_⟩
    exact Since.read hgood hroom (buf.take n) hlog (by rw [hlen]; exact hmagic)
  have hrlen : (h2.fsmRead (buf.take n)).off.rlen = h2.off.rlen + n := by
    show h2.off.rlen + (buf.take n).length = h2.off.rlen + n
    rw [hlen]
  by_cases hpart : (h2.fsmRead (buf.take n)).off.rlen < frameToRead h2.off
  · rw [if_pos hpart]
    have hrest : buf.drop n = [] := drop_of_length_le (by omega)
    rw [hrest] at htaken ⊢
    exact .part htaken hpart
  rw [if_neg hpart]
  have hfilled : Filled ⟨h2, buf⟩ q (buf.take n) (buf.drop n) := by
    refine ⟨htaken, ?_, hgood.fresh hne⟩
    show (h2.fsmRead (buf.take n)).off.rlen = frameToRead h2.off
    omega
  cases hx : (h2.fsmRead (buf.take n)).frameDone with
  | error e => exact .failed hfilled hx
  | ok r =>
    obtain ⟨h2', more⟩ := r
    cases more with
    | false => exact .exit hfilled hx
    | true =>
      by_cases hrest : buf.drop n = []
      · simp only [Bool.not_true, Bool.false_eq_true, if_false, if_pos hrest]
        rw [hrest] at hfilled
        exact .last hfilled hx
      · simp only [Bool.not_true, Bool.false_eq_true, if_false, if_neg hrest]
        exact .next hfilled hrest hx

section Filled

variable {b : List UInt8}

lemma Filled.post (h : Filled s q b rest) :
    Post H2Stop.IsDrop (Goes (q ++ b)) (s.h2.fsmRead b).frameDone :=
  h.good.frameDone h.done h.fresh

lemma Filled.spec (h : Filled s q b rest) (hs : Ready s q)
    (hx : (s.h2.fsmRead b).frameDone = .ok (h2', more)) :
    Goes (q ++ b) (h2', more) ∧ Done (s.h2.fsmRead b) (h2', more) ∧
      Since s.h2 { h2' with off.rlen := 0 } b ∧ h2'.off.state ≠ .recvCliStartSeq := by
  have hgoes := h.post.of_ok hx
  have heffect := (frameDone_done h.good.curs).of_ok hx
  have hsince := h.since.trans (heffect.since h.good h.done hgoes hs.log)
  rw [append_nil] at hsince
  exact ⟨hgoes, heffect, hsince, heffect.not_start h.good h.done hgoes⟩

lemma Filled.not_ignore (_ : Filled s q b rest)
    (hx : (s.h2.fsmRead b).frameDone = .ok (h2', true)) : s.h2.off.state ≠ .ignoreFrameData := by
  intro hst
  unfold TfwH2Ctx.frameDone at hx
  rw [show (s.h2.fsmRead b).off.state = .ignoreFrameData from hst] at hx
  cases hx

end Filled

lemma frameRecvStep_spec (s : FrameRecv) (h : Ready s q) :
    match frameRecvStep s with
    | .inl s' => ∃ b, b ≠ [] ∧ b ++ s'.buf = s.buf ∧ Ready s' (q ++ b) ∧ Since s.h2 s'.h2 b ∧
        s'.h2.acks = s.h2.acks ∧ s.h2.off.state ≠ .ignoreFrameData
    | .inr x => Post H2Stop.IsDrop (fun r => ∃ b, b ++ r.rest = s.buf ∧ Returned s.h2 q b r) x := by
  generalize hstep : frameRecvStep s = x
  have hcases := frameRecvStep_cases s h
  rw [hstep] at hcases
  cases hcases with
  | drop he => exact he
  | part ht hroom =>
    exact ⟨_, ht.split, ht.since, ht.ne, rfl, nofun, nofun, id, nofun,
      fun _ => ⟨ht.good, hroom, rfl, h.log⟩⟩
  | failed hf hx => exact hf.post.of_error hx
  | @exit b rest h2' hf hx =>
    obtain ⟨hgoes, hdone, hsince, hns⟩ := hf.spec h hx
    refine ⟨_, hf.split, hsince, hf.ne, ?_, fun _ => rfl, fun _ => hns, (hdone.exit rfl).trans,
      fun _ => Exited.rlen hgoes, nofun⟩
    have hacks := hdone.acks
    rw [← hdone.exit rfl] at hacks
    show h2'.acks = s.h2.acks + if true = true ∧ h2'.off.state = .recvFrameSettings then 1 else 0
    simp only [true_and] at hacks ⊢
    exact hacks
  | last hf hx =>
    obtain ⟨⟨hgood, htr⟩, hdone, hsince, hns⟩ := hf.spec h hx
    refine ⟨_, hf.split, hsince, hf.ne, ?_, nofun, nofun, fun h => absurd h (hf.not_ignore hx),
      nofun, fun _ => ⟨hgood, htr, rfl, fun h => absurd h hns⟩⟩
    exact hdone.acks
  | next hf hrest hx =>
    obtain ⟨⟨hgood, htr⟩, hdone, hsince, hns⟩ := hf.spec h hx
    exact ⟨_, hf.ne, hf.split, ⟨hgood, htr, fun h => absurd h hns, hrest⟩, hsince, hdone.acks,
      hf.not_ignore hx⟩

lemma tfwH2FrameRecv_ends (h : Ready ⟨h2, buf⟩ q) :
    IterLib.Ends frameRecvStep ⟨h2, buf⟩ (tfwH2FrameRecv h2 buf) := by
  let I : FrameRecv → Prop := fun s => ∃ q, Ready s q
  have hstep : ∀ s s', I s → frameRecvStep s = .inl s' → I s' ∧ s'.buf.length < s.buf.length := by
    rintro s s' ⟨q, hready⟩ hs
    have hspec := frameRecvStep_spec s hready
    rw [hs] at hspec
    obtain ⟨b, hne, hb, hready', -⟩ := hspec
    refine ⟨⟨q ++ b, hready'⟩, ?_⟩
    have hpos := length_pos_of_ne_nil hne
    rw [← hb, length_append]
    omega
  obtain ⟨x, hx, hends⟩ := IterLib.iterate_ends hstep ⟨q, h⟩ (Nat.lt_succ_self _)
  unfold tfwH2FrameRecv
  rw [hx]
  exact hends

/-- A call of `tfw_h2_frame_recv` never runs into a `BUG()` or a loop without end. -/
theorem tfwH2FrameRecv_spec (hgood : GoodAt h2 []) (hroom : Room h2.off)
    (hlog : h2.off.state = .recvCliStartSeq → h2.log = []) (hbuf : buf ≠ []) :
    Post H2Stop.IsDrop (fun r => ∃ b, b ++ r.rest = buf ∧ Returned h2 [] b r)
      (tfwH2FrameRecv h2 buf) := by
  have hinit : Ready ⟨h2, buf⟩ [] := ⟨hgood, hroom, hlog, hbuf⟩
  let I : FrameRecv → Prop := fun s => ∃ b, b ++ s.buf = buf ∧ Ready s b ∧ Since h2 s.h2 b ∧
    s.h2.acks = h2.acks ∧ (h2.off.state = .ignoreFrameData → s.h2.off.state = .ignoreFrameData)
  refine (tfwH2FrameRecv_ends hinit).invariant (I := I) ?_ ?_ ⟨[], rfl, hinit, .refl h2, rfl, id⟩
  · rintro s s' ⟨b, hb, hready, hsince, hacks, hign⟩ hs
    have hspec := frameRecvStep_spec s hready
    rw [hs] at hspec
    obtain ⟨b', -, hb', hready', hsince', hacks', hns⟩ := hspec
    refine ⟨b ++ b', ?_, hready', hsince.trans hsince', hacks'.trans hacks,
      fun h => absurd (hign h) hns⟩
    rw [append_assoc, hb', hb]
  · rintro s x ⟨b, hb, hready, hsince, hacks, hign⟩ hs
    have hspec := frameRecvStep_spec s hready
    rw [hs] at hspec
    refine Post.mono hspec ?_
    rintro r ⟨b', hb', hret⟩
    refine ⟨b ++ b', ?_, hsince.trans hret.since, ?_, ?_, hret.rlen, hret.started,
      fun h => hret.ignored (hign h), ?_, ?_⟩
    · rw [append_assoc, hb', hb]
    · exact append_ne_nil_of_right_ne_nil b hret.read
    · rw [hret.acks, hacks]
    · exact hret.exited
    · exact hret.postponed

end Tempesta.Http2
