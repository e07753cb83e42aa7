import Tempesta.Http2.Closing

/-!
One turn of the loop in `tfw_h2_frame_process`: the invariant between the turns, and
what a turn does to the history of the connection.
-/

namespace Tempesta.Http2

open List PostLib TfwH2Ctx FrameRec

def FrameRec.isSettings (f : FrameRec) : Bool :=
  f.hdr.type == .settings && f.hdr.length != 0

def FrameRec.PiecesCut (f : FrameRec) : Prop :=
  ∀ n, 0 < n → n < f.pieces.length →
    f.fieldsLen + ((f.pieces.take n).flatMap Upcall.data).length ∈ f.cuts

/-- A frame in the history. -/
structure FrameRec.Ended (f : FrameRec) : Prop where
  head : f.head.length = frameHeaderSize
  whole : f.payload.length = f.hdr.length ∨ f.PadOnly
  passed : f.Passed
  noAck : f.isSettings = true → hasFlag f.hdr.flags .ack = false
  cut : f.PiecesCut

/-- The invariant between the turns. -/
structure ConnInv (h2 : TfwH2Ctx) : Prop where
  good : GoodAt h2 []
  room : Room h2.off
  start : h2.off.state = .recvCliStartSeq → h2.log = []
  ended : ∀ f ∈ h2.log, f.Ended
  acks : h2.acks = h2.log.countP FrameRec.isSettings
  cut : h2.cur.PiecesCut
  atCut : h2.off.state.app = true → h2.cur.pieces ≠ [] →
    h2.cur.fieldsLen + h2.cur.handed.length ∈ h2.cur.cuts

variable {f f' : FrameRec} {l : List (List UInt8)} {b skb : List UInt8} {off : Nat} {p : Upcall}
  {h2 h2' : TfwH2Ctx} {o : FrameCtx} {r : FrameRecvRet} {store : H2Store} {pieces : List Upcall}

lemma FrameRec.PiecesCut.empty (h : f.pieces = []) : f.PiecesCut := by
  intro n _ hn
  rw [h] at hn
  cases hn

lemma ConnInv.init : ConnInv tfwH2ContextInit where
  good := .init
  room := Nat.succ_pos _
  start := fun _ => rfl
  ended := nofun
  acks := rfl
  cut := .empty rfl
  atCut := nofun

/-- What a turn with the data `skb` leads to. -/
structure Turned (h2 : TfwH2Ctx) (skb : List UInt8) (s' : H2Sys) : Prop where
  inv : ConnInv s'.h2
  consumed : s'.h2.consumed ++ s'.nskb = h2.consumed ++ skb
  store : StoreRun h2.store s'.h2.store
  log : ∃ fs, s'.h2.log = h2.log ++ fs

lemma dequeue_append (rest : List (List UInt8)) (h : l.flatten.length ≤ off) :
    dequeue off (l ++ rest) = dequeue (off - l.flatten.length) rest := by
  induction l generalizing off with
  | nil => rfl
  | cons skb l ih =>
    rw [flatten_cons, length_append] at h
    rw [cons_append, dequeue, if_pos (by omega), ih (by omega), flatten_cons,
      length_append, Nat.sub_add_eq]

lemma dequeue_last (h : l.flatten.length ≤ off) (hlt : off < (l.flatten ++ b).length) :
    dequeue off (l ++ [b]) = (off - l.flatten.length, [b]) := by
  rw [length_append] at hlt
  rw [dequeue_append _ h, dequeue, if_neg (by omega)]

lemma dequeue_all (h : l.flatten.length ≤ off) (heq : off = (l.flatten ++ b).length) :
    dequeue off (l ++ [b]) = (0, []) := by
  rw [length_append] at heq
  rw [dequeue_append _ h, dequeue, if_pos (by omega), dequeue,
    show off - l.flatten.length - b.length = 0 by omega]

lemma drop_flatten (h : l.flatten.length ≤ off) :
    (l.flatten ++ b).drop off = b.drop (off - l.flatten.length) := by
  rw [drop_append, drop_of_length_le h, nil_append]

lemma FrameRec.PieceOk.cuts (h : f.PieceOk p) (cuts : List Nat) (hsub : ∀ c ∈ f.cuts, c ∈ cuts) :
    PieceOk { f with cuts := cuts } p := by
  refine ⟨h.plen, h.data, ?_⟩
  rcases h.stream with hs | ⟨hs, ⟨htype, hfound, c, hc, hlt⟩ | hlost⟩
  · exact .inl hs
  · exact .inr ⟨hs, .inl ⟨htype, hfound, c, hsub c hc, hlt⟩⟩
  · exact .inr ⟨hs, .inr hlost⟩

lemma FrameRec.Passed.cuts (h : f.Passed) (cuts : List Nat) (hsub : ∀ c ∈ f.cuts, c ∈ cuts) :
    Passed { f with cuts := cuts } :=
  ⟨h.all, fun p hp => (h.pieces p hp).cuts cuts hsub⟩

lemma FrameRec.Lost.cuts (h : f.Lost) (cuts : List Nat) (hsub : ∀ c ∈ f.cuts, c ∈ cuts) :
    Lost { f with cuts := cuts } := by
  rcases h with ⟨htype, hfound, c, hc, hlt⟩ | hlost
  · exact .inl ⟨htype, hfound, c, hsub c hc, hlt⟩
  · exact .inr hlost

lemma FrameRec.fieldsLen_congr (h : f'.head = f.head) :
    f'.fieldsLen = f.fieldsLen := by
  unfold fieldsLen padBytes padded withPri hdr
  rw [h]

lemma FrameRec.PiecesCut.mono (h : f.PiecesCut) (hp : f'.pieces = f.pieces)
    (hhead : f.pieces ≠ [] → f'.head = f.head) (hsub : ∀ c ∈ f.cuts, c ∈ f'.cuts) :
    f'.PiecesCut := by
  intro n hpos hn
  rw [hp] at hn ⊢
  rw [fieldsLen_congr (hhead (ne_nil_of_length_pos (Nat.zero_lt_of_lt hn)))]
  exact hsub _ (h n hpos hn)

lemma FrameRec.PiecesCut.append (h : f.PiecesCut) (hp : f'.pieces = f.pieces ++ [p])
    (hhead : f.pieces ≠ [] → f'.head = f.head) (hsub : ∀ c ∈ f.cuts, c ∈ f'.cuts)
    (hlast : f.pieces ≠ [] → f.fieldsLen + f.handed.length ∈ f.cuts) : f'.PiecesCut := by
  intro n hpos hn
  rw [hp, length_append, length_singleton] at hn
  have hle : n ≤ f.pieces.length := Nat.le_of_lt_succ hn
  have hne : f.pieces ≠ [] := ne_nil_of_length_pos (Nat.lt_of_lt_of_le hpos hle)
  rw [hp, take_append_of_le_length hle, fieldsLen_congr (hhead hne)]
  apply hsub
  rcases Nat.lt_or_eq_of_le hle with hlt | rfl
  · exact h n hpos hlt
  · rw [take_length]
    exact hlast hne

lemma GoodAt.clearOff (hlset : h2.lsettings = tfwH2ContextInit.lsettings) (hinv : h2.store.Inv)
    (hlast : h2.store.lstreamId < 2 ^ 31) (hclosed : h2.store.NoClosed) :
    GoodAt h2.clearOff [] where
  lset := hlset
  inv := hinv
  last := hlast
  phase := ⟨rfl, rfl, rfl, Nat.zero_le _, rfl, rfl⟩
  queue := rfl
  mem := nofun
  curs := trivial
  closed := H2Store.NoClosed.no hclosed

lemma consumed_congr (h : h2.off.state ≠ .recvCliStartSeq)
    (h' : h2'.off.state ≠ .recvCliStartSeq) (hlog : h2'.log = h2.log)
    (hcur : h2'.cur.bytes = h2.cur.bytes) : h2'.consumed = h2.consumed := by
  rw [consumed_of_not_start _ h, consumed_of_not_start _ h', hlog, hcur]

lemma consumed_clearOff (h2 : TfwH2Ctx) (h : h2.off.state ≠ .recvCliStartSeq) :
    h2.clearOff.consumed = h2.consumed := by
  rw [consumed_of_not_start h2 h, consumed_of_not_start h2.clearOff nofun]
  show framePrefaceCliMagic ++ (h2.log ++ [h2.cur]).flatMap bytes ++ FrameRec.empty.bytes = _
  rw [flatMap_append, flatMap_singleton, ← append_assoc]
  exact append_nil _

section Turn

variable {cuts : List Nat}

/-- The context with what has been read put to the list of skbs. -/
def enqueued (h2 : TfwH2Ctx) (b : List UInt8) (cuts : List Nat) : TfwH2Ctx :=
  { h2 with off.skbHead := h2.off.skbHead ++ [b], cur.cuts := cuts }

lemma Cleared.enqueue (h : Cleared o) (skbHead : List (List UInt8)) :
    Cleared { o with skbHead := skbHead } := by
  unfold Cleared at h ⊢
  rw [h]

lemma AtHeader.enqueue (h : AtHeader h2.off h2.cur) :
    AtHeader (enqueued h2 b cuts).off (enqueued h2 b cuts).cur :=
  ⟨h.cleared.enqueue _, h.rbuf, h.rlen, h.le, h.payload, h.pieces⟩

lemma AtStart.enqueue (h : AtStart h2.off h2.cur) :
    AtStart (enqueued h2 b cuts).off (enqueued h2 b cuts).cur :=
  ⟨h.cleared.enqueue _, h.rbuf, h.le, h.head, h.payload, h.pieces⟩

lemma InFrame.enqueue (h : InFrame h2.off h2.cur) :
    InFrame (enqueued h2 b cuts).off (enqueued h2 b cuts).cur :=
  ⟨h.head, h.type, h.flags, h.streamId, h.le, h.owed, h.detail⟩

lemma Phase.enqueue (h : Phase h2.off h2.cur) :
    Phase (enqueued h2 b cuts).off (enqueued h2 b cuts).cur := by
  have hstate : (enqueued h2 b cuts).off.state = h2.off.state := rfl
  unfold Phase at h ⊢
  rw [hstate]
  cases hst : h2.off.state with
  | recvCliStartSeq =>
    rw [hst] at h
    exact h.enqueue
  | recvFirstSettings | recvFrameHeader =>
    rw [hst] at h
    exact h.enqueue
  | _ =>
    rw [hst] at h
    exact h.enqueue

lemma Queue.enqueue (h : Queue h2.off h2.cur b) (hst : h2.off.state.app = false)
    (hsub : ∀ c ∈ h2.cur.cuts, c ∈ cuts) :
    Queue (enqueued h2 b cuts).off (enqueued h2 b cuts).cur [] := by
  have hflat : (h2.off.skbHead ++ [b]).flatten ++ [] = h2.off.skbHead.flatten ++ b := by
    rw [append_nil, flatten_append, flatten_singleton]
  have hstate : (enqueued h2 b cuts).off.state = h2.off.state := rfl
  unfold Queue at h ⊢
  rw [hstate]
  cases hs : h2.off.state with
  | recvFrameHeader =>
    rw [hs] at h
    exact hflat.trans h
  | recvFramePadded | recvHeaderPri =>
    rw [hs] at h
    exact ⟨hflat.trans h.1, h.2⟩
  | ignoreFrameData =>
    rw [hs] at h
    exact ⟨h.1.cuts cuts hsub, h.2⟩
  | recvHeader | recvCont | recvData =>
    rw [hs] at hst
    cases hst
  | _ =>
    rw [hs] at h
    exact h

lemma GoodAt.enqueue (h : GoodAt h2 b) (hst : h2.off.state.app = false)
    (hsub : ∀ c ∈ h2.cur.cuts, c ∈ cuts) : GoodAt (enqueued h2 b cuts) [] :=
  ⟨h.lset, h.inv, h.last, h.phase.enqueue, h.queue.enqueue hst hsub, h.mem, h.curs, h.closed⟩

lemma FrameRec.isSettings_iff (f : FrameRec) :
    f.isSettings = true ↔ f.hdr.type = .settings ∧ f.hdr.length ≠ 0 := by
  simp only [isSettings, Bool.and_eq_true, beq_iff_eq, bne_iff_ne]

lemma ConnInv.clearOff (hi : ConnInv h2) (h2' : TfwH2Ctx) (hlog : h2'.log = h2.log)
    (hgood : GoodAt h2'.clearOff []) (hended : h2'.cur.Ended)
    (hacks : h2'.acks = h2.acks + if h2'.cur.isSettings = true then 1 else 0) :
    ConnInv h2'.clearOff where
  good := hgood
  room := Nat.succ_pos _
  start := nofun
  ended := by
    intro f hf
    rcases mem_append.mp hf with hf | hf
    · exact hi.ended f (hlog ▸ hf)
    · rw [mem_singleton.mp hf]
      exact hended
  acks := by
    show h2'.acks = (h2'.log ++ [h2'.cur]).countP isSettings
    rw [countP_append, countP_singleton, hlog, ← hi.acks]
    exact hacks
  cut := .empty rfl
  atCut := nofun

lemma GoodAt.head_of_pieces (h : GoodAt h2 b) (hp : h2.cur.pieces ≠ []) :
    h2.cur.head.length = frameHeaderSize := by
  rcases phase_cases _ _ h.phase with ⟨-, ha⟩ | ⟨-, ha⟩ | hf
  · exact absurd ha.pieces hp
  · exact absurd ha.pieces hp
  · exact hf.head

/-- What has been handed up is application data, and more of it follows unless the
rest of the frame is ignored. -/
theorem GoodAt.app_of_pieces (h : GoodAt h2 b) (hp : h2.cur.pieces ≠ [])
    (hign : h2.off.state ≠ .ignoreFrameData) : h2.off.state.app = true := by
  have hq := h.queue
  unfold Queue at hq
  rcases phase_cases _ _ h.phase with ⟨-, ha⟩ | ⟨-, ha⟩ | hf
  · exact absurd ha.pieces hp
  · exact absurd ha.pieces hp
  · have hd := hf.detail
    unfold Detail at hd
    cases hst : h2.off.state with
    | recvHeader | recvCont | recvData => rfl
    | recvFrameHeader | recvCliStartSeq | recvFirstSettings =>
      rw [hst] at hd
      exact absurd hd id
    | recvFramePadded | recvHeaderPri =>
      rw [hst] at hq
      exact absurd hq.2.2 hp
    | ignoreFrameData => exact absurd hst hign
    | recvFramePriority | recvFrameWndUpdate | recvFramePing | recvFrameRstStream
    | recvFrameSettings | recvFrameGoaway =>
      rw [hst] at hq
      exact absurd hq hp

section Pieces

variable (hret : Returned h2 [] b r) (hi : ConnInv h2)
include hret hi

lemma Returned.head (hp : r.h2.cur.pieces ≠ []) : r.h2.cur.head = h2.cur.head := by
  rw [hret.since.pieces] at hp
  exact hret.since.head (hi.good.head_of_pieces hp)

lemma Returned.piecesCut : r.h2.cur.PiecesCut := by
  have hs := hret.since
  refine hi.cut.mono hs.pieces (fun hp => hret.head hi (hs.pieces ▸ hp)) ?_
  rw [hs.cuts]
  exact fun c hc => hc

lemma Returned.atCut (hst : r.h2.off.state.app = true) (hp : r.h2.cur.pieces ≠ []) :
    r.h2.cur.fieldsLen + r.h2.cur.handed.length ∈ r.h2.cur.cuts := by
  have hs := hret.since
  have hign : h2.off.state ≠ .ignoreFrameData := fun h => app_ne hst rfl (hret.ignored h)
  rw [fieldsLen_congr (hret.head hi hp), handed, hs.pieces, hs.cuts]
  rw [hs.pieces] at hp
  exact hi.atCut (hi.good.app_of_pieces hp hign) hp

end Pieces

lemma Returned.service (hret : Returned h2 [] b r) (hi : ConnInv h2) (hc : r.complete = true)
    (hst : r.h2.off.state.app = false) (hsub : ∀ c ∈ r.h2.cur.cuts, c ∈ cuts) :
    Turned h2 (b ++ r.rest)
      ⟨TfwH2Ctx.clearOff { enqueued r.h2 b cuts with off.skbHead := [] }, r.rest⟩ := by
  have he : Exited r.h2 b := hret.exited hc
  have hs := hret.since
  obtain ⟨hpassed, hpad⟩ := he.other hst
  constructor
  · refine hi.clearOff { enqueued r.h2 b cuts with off.skbHead := [] } hs.log ?_ ?_ ?_
    · exact .clearOff he.lset he.inv he.last he.closed
    · refine ⟨he.head, ?_, hpassed.cuts cuts hsub, ?_, ?_⟩
      · have howed := he.owed
        rcases hpad with hpad | hpad
        · exact .inl (by rw [hpad] at howed; exact howed)
        · exact .inr hpad
      · intro hset
        exact he.noAck (he.settings.mpr ((isSettings_iff _).mp hset))
      · exact (hret.piecesCut hi).mono rfl (fun _ => rfl) hsub
    · have hacks := hret.acks
      rw [hc] at hacks
      show r.h2.acks = _
      rw [hacks]
      refine congrArg (h2.acks + ·) (if_congr ?_ rfl rfl)
      exact (and_iff_right rfl).trans (he.settings.trans (isSettings_iff _).symm)
  · rw [consumed_clearOff { enqueued r.h2 b cuts with off.skbHead := [] } (hret.started hc)]
    show r.h2.consumed ++ r.rest = _
    rw [hs.consumed, append_assoc]
  · exact hs.store
  · exact ⟨[_], congrArg (· ++ [_]) hs.log⟩

lemma Returned.servicePostponed (hret : Returned h2 [] b r) (hi : ConnInv h2)
    (hc : r.complete = false) (hst : r.h2.off.state.app = false)
    (hsub : ∀ c ∈ r.h2.cur.cuts, c ∈ cuts) :
    Turned h2 (b ++ r.rest) ⟨enqueued r.h2 b cuts, []⟩ := by
  obtain ⟨hgood, hroom, hrest, hstart⟩ := hret.postponed hc
  have hs := hret.since
  refine ⟨⟨hgood.enqueue hst hsub, hroom, hstart, fun f hf => hi.ended f (hs.log ▸ hf), ?_,
    (hret.piecesCut hi).mono rfl (fun _ => rfl) hsub, fun h => ?_⟩, ?_,
    hs.store, ⟨[], hs.log.trans (append_nil _).symm⟩⟩
  · show r.h2.acks = r.h2.log.countP isSettings
    rw [hret.acks, hc, hs.log]
    exact hi.acks
  · cases hst.symm.trans h
  · show r.h2.consumed ++ [] = _
    rw [hs.consumed, hrest, append_nil, append_nil]

def handedUp (h2 : TfwH2Ctx) (cuts : List Nat) (store : H2Store) (pieces : List Upcall) :
    TfwH2Ctx :=
  { h2 with
    store := store, cur.cuts := cuts, cur.pieces := pieces
    off.skbHead := [], off.dataOff := 0 }

section Handed

variable (hstream : p.stream = h2.off.curStream) (hplen : p.plen = h2.off.plen)
  (hdata : p.data = (h2.off.skbHead.flatten ++ b).drop h2.off.dataOff)
include hstream hplen hdata

lemma Core.pieceOk (hc : Core h2) (hlen : h2.off.plen + h2.cur.fieldsLen = h2.cur.hdr.length)
    (hlt : h2.off.dataOff < (h2.off.skbHead.flatten ++ b).length)
    (hlost : h2.off.curStream = none → FrameRec.Lost { h2.cur with cuts := cuts }) :
    FrameRec.PieceOk { h2.cur with cuts := cuts } p := by
  refine ⟨(congrArg (· + h2.cur.fieldsLen) hplen).trans hlen, ?_, ?_⟩
  · rw [hdata]
    exact fun hnil => absurd (drop_eq_nil_iff.mp hnil) (Nat.not_le.mpr hlt)
  rw [hstream]
  cases hcur : h2.off.curStream with
  | some id =>
    left
    rw [(hc.mem id hcur).1, hc.streamId]
    rfl
  | none => exact .inr ⟨rfl, hlost hcur⟩

lemma AppEnd.passed (h : AppEnd h2 b) (hc : Core h2)
    (howed : h2.cur.payload.length + h2.off.padlen = h2.cur.hdr.length)
    (hsub : ∀ c ∈ h2.cur.cuts, c ∈ cuts) :
    FrameRec.Passed { h2.cur with cuts := cuts, pieces := h2.cur.pieces ++ [p] } := by
  obtain ⟨-, -, hall, hpieces⟩ := h.queue
  have hpad := h.padlen
  constructor
  · show List.flatMap Upcall.data (h2.cur.pieces ++ [p]) = h2.cur.app
    rw [flatMap_append, flatMap_singleton, hdata]
    refine hall.trans ?_
    rw [app, if_pos h.isApp, take_of_length_le]
    rw [length_drop]
    unfold appLen
    omega
  · intro p' hp'
    have hok : FrameRec.PieceOk { h2.cur with cuts := cuts } p' := by
      rcases mem_append.mp hp' with hp' | hp'
      · exact (hpieces p' hp').cuts cuts hsub
      · rw [mem_singleton.mp hp']
        refine hc.pieceOk hstream hplen hdata h.plen h.dataOff fun hcur => ?_
        exact (h.lost hcur).cuts cuts hsub
    exact ⟨hok.plen, hok.data, hok.stream⟩

end Handed

lemma AppEnd.padding (h : AppEnd h2 b) (hc : Core h2)
    (howed : h2.cur.payload.length + h2.off.padlen = h2.cur.hdr.length) (hrlen : h2.off.rlen = 0)
    (hopen : h2.store.NoClosed) (hinv : store.Inv) (hl : h2.store.Later store)
    (hpassed : FrameRec.Passed { h2.cur with cuts := cuts, pieces := pieces }) :
    GoodAt
      { handedUp h2 cuts store pieces with
        off.state := .ignoreFrameData, off.toRead := h2.off.padlen, off.padlen := 0 } [] := by
  have hread := h.read
  have hpad := h.padlen
  refine Core.good ?_ ?_ ?_ ?_ ?_ ?_ ?_
  · refine ⟨hc.lset, hinv, hl.last ▸ hc.last, fun id hid => ?_, hc.head, hc.type, hc.flags,
      hc.streamId⟩
    exact ⟨(hc.mem id hid).1, hl.ids ▸ (hc.mem id hid).2⟩
  · show h2.off.rlen ≤ h2.off.padlen
    omega
  · show h2.cur.payload.length + (h2.off.padlen - h2.off.rlen) + h2.off.hdr.length + 0 =
      h2.cur.hdr.length
    have := h.length
    omega
  · exact ⟨isApp_not_settings h.isApp, rfl, h.length⟩
  · refine ⟨hpassed, fun _ => ⟨?_, ?_⟩⟩
    · show h2.cur.payload ≠ []
      intro hnil
      rw [hnil] at hread
      exact Nat.not_lt_zero _ hread
    · show h2.cur.fieldsLen + h2.cur.appLen ≤ h2.cur.payload.length
      unfold appLen
      omega
  · exact h.past.later hl
  · intro t ht hclosed
    exact absurd hclosed (hopen.later hl hinv t ht)

lemma reinit_clear (h2 : TfwH2Ctx) (h : h2.off.state.app = false ∨ h2.off.padlen = 0) :
    h2.tfwH2ContextReinit false = h2.clearOff := by
  unfold tfwH2ContextReinit
  apply if_pos
  rcases h with h | h
  · simp only [h, Bool.not_false, Bool.true_or]
  · simp only [h, Bool.not_false, Bool.true_and, beq_self_eq_true, Bool.or_true]

lemma reinit_postponed (h2 : TfwH2Ctx) (hst : h2.off.state.app = true) :
    h2.tfwH2ContextReinit true = h2 := by
  unfold tfwH2ContextReinit
  simp only [hst, Bool.not_true, Bool.false_and, Bool.or_self, Bool.false_eq_true, if_false]

lemma reinit_padding (h2 : TfwH2Ctx) (hst : h2.off.state.app = true) (hp : h2.off.padlen ≠ 0) :
    h2.tfwH2ContextReinit false = { h2 with
      off.state := .ignoreFrameData, off.toRead := h2.off.padlen, off.padlen := 0 } := by
  unfold tfwH2ContextReinit
  rw [if_neg, if_pos Bool.not_false]
  simp only [hst, Bool.not_true, Bool.not_false, Bool.false_or, Bool.true_and, beq_iff_eq]
  exact hp

lemma Returned.appComplete (hret : Returned h2 [] b r) (hi : ConnInv h2) (hc : r.complete = true)
    (hst : r.h2.off.state.app = true) (hsub : ∀ c ∈ r.h2.cur.cuts, c ∈ cuts) (reply : HttpReply) :
    Post H2Stop.IsDrop (Turned h2 (b ++ r.rest))
      (deliver (enqueued r.h2 b cuts) r.rest false reply) := by
  have he : Exited r.h2 b := hret.exited hc
  have happ := he.app hst
  have hs := hret.since
  obtain ⟨hskb, -, hall, hpieces⟩ := happ.queue
  unfold deliver
  rw [show dequeue (enqueued r.h2 b cuts).off.dataOff (enqueued r.h2 b cuts).off.skbHead =
    (r.h2.off.dataOff - r.h2.off.skbHead.flatten.length, [b]) from dequeue_last hskb happ.dataOff]
  simp only
  refine Post.bind (msgProcess_spec { enqueued r.h2 b cuts with
    off.dataOff := 0, off.skbHead := [] } he.inv (fun id hid => (he.mem id hid).2) _ reply) ?_
  rintro h2' ⟨store, p, hinv, hl, hstream, hplen, hdata, rfl⟩
  have hpassed := happ.passed (show p.stream = r.h2.off.curStream from hstream) hplen
    (hdata.trans (drop_flatten hskb).symm) he.toCore he.owed hsub
  have hnset : r.h2.off.state ≠ .recvFrameSettings := app_ne hst rfl
  have hacks : r.h2.acks = h2.acks := by
    rw [hret.acks, if_neg fun h => hnset h.2, Nat.add_zero]
  have hcut : FrameRec.PiecesCut
      { r.h2.cur with cuts := cuts, pieces := r.h2.cur.pieces ++ [p] } :=
    (hret.piecesCut hi).append rfl (fun _ => rfl) hsub (hret.atCut hi hst)
  have hnot : r.h2.cur.isSettings = false :=
    Bool.eq_false_iff.mpr fun h => hnset (he.settings.mpr ((isSettings_iff _).mp h))
  show Turned _ _
    ⟨(handedUp r.h2 cuts store (r.h2.cur.pieces ++ [p])).tfwH2ContextReinit false, r.rest⟩
  by_cases hp : r.h2.off.padlen = 0
  · rw [reinit_clear (handedUp r.h2 cuts store _) (.inr hp)]
    constructor
    · refine hi.clearOff _ hs.log ?_ ?_ ?_
      · exact .clearOff he.lset hinv (hl.last ▸ he.last) (he.closed.later hl hinv)
      · refine ⟨he.head, .inl ?_, hpassed, ?_, hcut⟩
        · have howed := he.owed
          rw [hp] at howed
          exact howed
        · intro hset
          cases hnot.symm.trans hset
      · show r.h2.acks = h2.acks + if r.h2.cur.isSettings = true then 1 else 0
        rw [hnot, hacks]
        rfl
    · have heq := consumed_clearOff (handedUp r.h2 cuts store (r.h2.cur.pieces ++ [p]))
        (hret.started hc)
      refine (congrArg (· ++ r.rest) heq).trans ?_
      show r.h2.consumed ++ r.rest = _
      rw [hs.consumed, append_assoc]
    · exact hs.store.trans hl.run
    · exact ⟨[_], congrArg (· ++ [_]) hs.log⟩
  · rw [reinit_padding (handedUp r.h2 cuts store _) hst hp]
    constructor
    · constructor
      · exact happ.padding he.toCore he.owed (hret.rlen hc) he.closed hinv hl hpassed
      · show r.h2.off.rlen < r.h2.off.padlen
        rw [hret.rlen hc]
        exact Nat.pos_of_ne_zero hp
      · nofun
      · exact fun f hf => hi.ended f (hs.log ▸ hf)
      · show r.h2.acks = r.h2.log.countP isSettings
        rw [hacks, hs.log]
        exact hi.acks
      · exact hcut
      · nofun
    · have heq : TfwH2Ctx.consumed { handedUp r.h2 cuts store (r.h2.cur.pieces ++ [p]) with
          off.state := .ignoreFrameData, off.toRead := r.h2.off.padlen, off.padlen := 0 } =
          r.h2.consumed := consumed_congr (hret.started hc) nofun rfl rfl
      refine (congrArg (· ++ r.rest) heq).trans ?_
      rw [hs.consumed, append_assoc]
    · exact hs.store.trans hl.run
    · exact ⟨[], hs.log.trans (append_nil _).symm⟩

lemma GoodAt.handUp (h : GoodAt h2 b) (hst : h2.off.state.app = true) (hinv : store.Inv)
    (hl : h2.store.Later store)
    (hall : pieces.flatMap Upcall.data = h2.cur.payload.drop h2.cur.fieldsLen)
    (hok : ∀ p ∈ pieces, FrameRec.PieceOk { h2.cur with cuts := cuts } p) :
    GoodAt (handedUp h2 cuts store pieces) [] := by
  have hf := h.inFrame (app_ne hst rfl) (app_ne hst rfl) (app_ne hst rfl)
  have hl' := h.later hinv hl
  have hqueue : Queue.App (handedUp h2 cuts store pieces).off (handedUp h2 cuts store pieces).cur
      [] := by
    refine ⟨Nat.zero_le _, Nat.zero_le _, ?_,
      fun p hp => ⟨(hok p hp).plen, (hok p hp).data, (hok p hp).stream⟩⟩
    exact (append_nil _).trans hall
  refine ⟨h.lset, hinv, hl'.last, InFrame.phase ?_, ?_, hl'.mem, hl'.curs, hl'.closed⟩
  · exact ⟨hf.head, hf.type, hf.flags, hf.streamId, hf.le, hf.owed, hf.detail⟩
  · unfold Queue
    rw [show (handedUp h2 cuts store pieces).off.state = h2.off.state from rfl]
    cases hs : h2.off.state with
    | recvHeader | recvCont | recvData => exact hqueue
    | _ =>
      rw [hs] at hst
      cases hst

lemma GoodAt.inApp (h : GoodAt h2 b) (hst : h2.off.state.app = true) (hroom : Room h2.off) :
    Core h2 ∧ Queue.App h2.off h2.cur b ∧ CurDetail.Opens h2 ∧
      h2.off.plen + h2.cur.fieldsLen = h2.cur.hdr.length ∧
      h2.cur.payload.length < h2.cur.fieldsLen + h2.cur.appLen := by
  have hf := h.inFrame (app_ne hst rfl) (app_ne hst rfl) (app_ne hst rfl)
  have hd := hf.detail
  have hq := h.queue
  have hcurs := h.curs
  have howed := hf.owed
  unfold Room at hroom
  rw [hf.frameToRead] at hroom
  unfold Detail at hd
  unfold Queue at hq
  unfold CurDetail at hcurs
  have key : Detail.App h2.off h2.cur ∧ Queue.App h2.off h2.cur b ∧ CurDetail.Opens h2 := by
    cases hs : h2.off.state with
    | recvHeader | recvCont | recvData =>
      rw [hs] at hd hq hcurs
      exact ⟨hd.2, hq, hcurs⟩
    | _ =>
      rw [hs] at hst
      cases hst
  obtain ⟨⟨hpad, hlen, hpay, -, hplen⟩, hqueue, hopens⟩ := key
  refine ⟨h.core hf, hqueue, hopens, hplen, ?_⟩
  unfold appLen
  omega

lemma GoodAt.lost (h : GoodAt h2 b) (hst : h2.off.state.app = true) (hroom : Room h2.off)
    (hcut : h2.cur.payload.length ∈ cuts)
    (hlt : h2.off.dataOff < (h2.off.skbHead.flatten ++ b).length)
    (hcur : h2.off.curStream = none) : FrameRec.Lost { h2.cur with cuts := cuts } := by
  obtain ⟨hc, ⟨-, -, hall, -⟩, hopens, -, hlen⟩ := h.inApp hst hroom
  obtain ⟨htype, -, hfound⟩ := hopens.1 hcur
  have hread := congrArg List.length hall
  rw [length_append, length_drop, length_drop] at hread
  refine .inl ⟨hc.type ▸ htype, hfound, h2.cur.payload.length, hcut, ?_, hlen⟩
  show h2.cur.fieldsLen < h2.cur.payload.length
  omega

lemma Returned.appPostponed (hret : Returned h2 [] b r) (hi : ConnInv h2)
    (hc : r.complete = false) (hst : r.h2.off.state.app = true)
    (hsub : ∀ c ∈ r.h2.cur.cuts, c ∈ cuts) (hcut : r.h2.cur.payload.length ∈ cuts)
    (reply : HttpReply) :
    Post H2Stop.IsDrop (Turned h2 (b ++ r.rest))
      (deliver (enqueued r.h2 b cuts) r.rest true reply) := by
  obtain ⟨hgood, hroom, hrest, -⟩ := hret.postponed hc
  rw [nil_append] at hgood
  obtain ⟨hcore, ⟨hskb, hle, hall, hpieces⟩, -, hplen', -⟩ := hgood.inApp hst hroom
  have hs := hret.since
  have hacks : r.h2.acks = h2.acks := by
    rw [hret.acks, hc]
    rfl
  have hturn : ∀ store pieces, StoreRun h2.store store →
      GoodAt (handedUp r.h2 cuts store pieces) [] →
      FrameRec.PiecesCut { r.h2.cur with cuts := cuts, pieces := pieces } →
      (pieces ≠ [] → r.h2.cur.fieldsLen + (pieces.flatMap Upcall.data).length ∈ cuts) →
      Turned h2 (b ++ r.rest) ⟨handedUp r.h2 cuts store pieces, r.rest⟩ := by
    intro store pieces hrun hg hpc hlast
    refine ⟨⟨hg, hroom, fun h => absurd h (app_ne hst rfl), fun f hf => hi.ended f (hs.log ▸ hf), ?_, hpc,
      fun _ => hlast⟩, ?_, hrun, ⟨[], hs.log.trans (append_nil _).symm⟩⟩
    · show r.h2.acks = r.h2.log.countP isSettings
      rw [hacks, hs.log]
      exact hi.acks
    · show r.h2.consumed ++ r.rest = _
      rw [hs.consumed, append_assoc]
  unfold deliver
  by_cases heq : r.h2.off.dataOff = (r.h2.off.skbHead.flatten ++ b).length
  · rw [show dequeue (enqueued r.h2 b cuts).off.dataOff (enqueued r.h2 b cuts).off.skbHead =
      (0, []) from dequeue_all hskb heq]
    have hg : GoodAt (handedUp r.h2 cuts r.h2.store r.h2.cur.pieces) [] := by
      refine hgood.handUp hst hcore.inv (.refl _) ?_ fun p hp => (hpieces p hp).cuts cuts hsub
      rw [heq, drop_length, append_nil] at hall
      exact hall
    have := hturn _ _ hs.store hg ((hret.piecesCut hi).mono rfl (fun _ => rfl) hsub)
      fun hp => hsub _ (hret.atCut hi hst hp)
    rw [hrest] at this ⊢
    exact this
  · have hlt : r.h2.off.dataOff < (r.h2.off.skbHead.flatten ++ b).length := by omega
    rw [show dequeue (enqueued r.h2 b cuts).off.dataOff (enqueued r.h2 b cuts).off.skbHead =
      (r.h2.off.dataOff - r.h2.off.skbHead.flatten.length, [b]) from dequeue_last hskb hlt]
    simp only
    refine Post.bind (msgProcess_spec { enqueued r.h2 b cuts with
      off.dataOff := 0, off.skbHead := [] } hcore.inv (fun id hid => (hcore.mem id hid).2) _
      reply) ?_
    rintro h2' ⟨store, p, hinv, hl, hstream, hplen, hdata, rfl⟩
    show Turned _ _
      ⟨(handedUp r.h2 cuts store (r.h2.cur.pieces ++ [p])).tfwH2ContextReinit true, r.rest⟩
    rw [reinit_postponed (handedUp r.h2 cuts store _) hst]
    have hhanded : (r.h2.cur.pieces ++ [p]).flatMap Upcall.data =
        r.h2.cur.payload.drop r.h2.cur.fieldsLen := by
      rw [flatMap_append, flatMap_singleton, hdata, ← drop_flatten hskb]
      exact hall
    refine hturn _ _ (hs.store.trans hl.run) (hgood.handUp hst hinv hl hhanded ?_)
      ((hret.piecesCut hi).append rfl (fun _ => rfl) hsub (hret.atCut hi hst)) fun _ => ?_
    · intro p' hp'
      rcases mem_append.mp hp' with hp' | hp'
      · exact (hpieces p' hp').cuts cuts hsub
      · rw [mem_singleton.mp hp']
        exact hcore.pieceOk hstream hplen (hdata.trans (drop_flatten hskb).symm) hplen' hlt
          (hgood.lost hst hroom hcut hlt)
    · have hlen := congrArg List.length hall
      rw [length_append, length_drop, length_drop] at hlen
      rw [hhanded, length_drop, Nat.add_sub_of_le (by omega)]
      exact hcut

lemma frameProcess_spec (hi : ConnInv h2) (hskb : skb ≠ []) (reply : HttpReply) :
    Post H2Stop.IsDrop (Turned h2 skb) (frameProcess h2 skb reply) := by
  unfold frameProcess
  refine (tfwH2FrameRecv_spec hi.good hi.room hi.start hskb).bind ?_
  rintro r ⟨b, rfl, hret⟩
  have hparsed : (b ++ r.rest).take ((b ++ r.rest).length - r.rest.length) = b := by
    rw [length_append, Nat.add_sub_cancel, take_left]
  simp only [hparsed]
  generalize hcuts : (if r.rest = [] then r.h2.cur.cuts ++ [r.h2.cur.payload.length]
    else r.h2.cur.cuts) = cuts
  have hsub : ∀ c ∈ r.h2.cur.cuts, c ∈ cuts := by
    intro c hc
    rw [← hcuts]
    split_ifs
    · exact mem_append_left _ hc
    · exact hc
  show Post _ _ (if (enqueued r.h2 b cuts).off.state.app = true then
    deliver (enqueued r.h2 b cuts) r.rest (!r.complete) reply else _)
  refine Post.ite (fun hst => ?_) fun hst => ?_
  · cases hc : r.complete with
    | true => exact hret.appComplete hi hc hst hsub reply
    | false =>
      refine hret.appPostponed hi hc hst hsub ?_ reply
      rw [← hcuts, if_pos (hret.postponed hc).2.2.1]
      exact mem_append_right _ (mem_singleton_self _)
  · replace hst : r.h2.off.state.app = false := Bool.eq_false_iff.mpr hst
    refine Post.ite (fun hc => ?_) fun hc => ?_
    · show Turned _ _
        ⟨tfwH2ContextReinit { enqueued r.h2 b cuts with off.skbHead := [] } false, r.rest⟩
      rw [reinit_clear { enqueued r.h2 b cuts with off.skbHead := [] } (.inl hst)]
      exact hret.service hi hc hst hsub
    · exact hret.servicePostponed hi (Bool.eq_false_iff.mpr hc) hst hsub

end Turn
end Tempesta.Http2
