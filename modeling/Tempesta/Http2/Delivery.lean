import Tempesta.Http2.FrameSync
import Tempesta.Lib.PrefixCode

/-!
What the HTTP layer is given. The application data of every frame is handed up
byte for byte, however the stream of bytes is cut into skbs; a cut may only make
the machine hand a part of a HEADERS frame up before the stream exists.
-/

namespace Tempesta.Http2

open List PrefixLib TfwH2Ctx FrameRec

def TfwH2Ctx.frames (h2 : TfwH2Ctx) : List FrameRec :=
  if h2.cur.head.length = frameHeaderSize then h2.log ++ [h2.cur] else h2.log

def TfwH2Ctx.delivered (h2 : TfwH2Ctx) (id : Nat) : List UInt8 :=
  h2.frames.flatMap fun f => (f.pieces.filter (·.stream = some id)).flatMap Upcall.data

variable {h2 h2' : TfwH2Ctx} {f : FrameRec} {o : FrameCtx}

lemma FrameRec.app_of_fields (h : f.payload.length ≤ f.fieldsLen) : f.app = [] := by
  rw [app, drop_of_length_le h, take_nil, ite_self]

lemma FrameRec.app_length_le (f : FrameRec) : f.app.length ≤ f.appLen := by
  unfold app
  by_cases h : f.isApp = true
  · rw [if_pos h]
    exact length_take_le _ _
  · rw [if_neg h]
    exact Nat.zero_le _

lemma FrameRec.Passed.empty (hp : f.pieces = []) (happ : f.app = []) : f.Passed := by
  refine ⟨?_, ?_⟩
  · rw [handed, hp, happ]
    rfl
  · rw [hp]
    exact forall_mem_nil _

/-- In the middle of the application data, all that was received has been handed up. -/
theorem Queue.App.passed (hq : Queue.App o f []) (hf : InFrame o f) (hd : Detail.App o f)
    (happ : f.isApp = true) : f.Passed := by
  obtain ⟨hskb, -, hall, hpieces⟩ := hq
  obtain ⟨hpad, hlen, -, -, -⟩ := hd
  have howed := hf.owed
  refine ⟨?_, hpieces⟩
  rw [append_nil, drop_of_length_le hskb, append_nil] at hall
  rw [hall, app, if_pos happ, take_of_length_le]
  rw [length_drop, appLen]
  omega

lemma GoodAt.passed (h : GoodAt h2 []) : h2.cur.Passed := by
  have hq := h.queue
  unfold Queue at hq
  rcases phase_cases _ _ h.phase with ⟨-, hp⟩ | ⟨-, hp⟩ | hf
  · exact .empty hp.pieces (app_of_fields (by rw [hp.payload]; exact Nat.zero_le _))
  · exact .empty hp.pieces (app_of_fields (by rw [hp.payload]; exact Nat.zero_le _))
  have hd := hf.detail
  have hle := hf.le
  unfold Detail at hd
  cases hst : h2.off.state with
  | recvFrameHeader | recvCliStartSeq | recvFirstSettings =>
    rw [hst] at hd
    exact absurd hd id
  | recvHeader | recvCont | recvData =>
    rw [hst] at hq hd
    refine Queue.App.passed hq hf hd.2 ?_
    rw [isApp, hd.1]
    rfl
  | recvFramePadded =>
    rw [hst] at hq hd
    refine .empty hq.2.2 (app_of_fields ?_)
    have := fieldsLen_of_padded hd.1
    have := hd.2.2.2.2.1
    omega
  | recvHeaderPri =>
    rw [hst] at hq hd
    refine .empty hq.2.2 (app_of_fields ?_)
    have := fieldsLen_of_withPri hd.1
    have := hd.2.2.2.1
    omega
  | ignoreFrameData =>
    rw [hst] at hq
    exact hq.1
  | recvFramePriority | recvFrameWndUpdate | recvFramePing | recvFrameRstStream
  | recvFrameSettings | recvFrameGoaway =>
    rw [hst] at hq hd
    refine .empty hq ?_
    rw [app, isApp, hd.1]
    rfl

lemma ConnInv.unfinished (hi : ConnInv h2) (hst : h2.off.state ≠ .recvCliStartSeq) :
    h2.cur.head.length < frameHeaderSize ∧ h2.cur.payload = [] ∨
      h2.cur.head.length = frameHeaderSize ∧ h2.cur.payload.length < h2.cur.hdr.length := by
  have hroom := hi.room
  unfold Room at hroom
  rcases phase_cases _ _ hi.good.phase with ⟨hs, -⟩ | ⟨hs, hp⟩ | hf
  · exact absurd hs hst
  · left
    refine ⟨?_, hp.payload⟩
    rw [← hp.rlen]
    unfold frameToRead at hroom
    rcases hs with hs | hs
    · rw [hs] at hroom
      exact hroom
    · rw [hs] at hroom
      exact hroom
  · right
    rw [hf.frameToRead] at hroom
    have := hf.owed
    exact ⟨hf.head, by omega⟩

lemma ConnInv.mem_frames (hi : ConnInv h2) (hf : f ∈ h2.frames) : f.Passed := by
  unfold frames at hf
  by_cases hhead : h2.cur.head.length = frameHeaderSize
  · rw [if_pos hhead] at hf
    rcases mem_append.mp hf with hf | hf
    · exact (hi.ended f hf).passed
    · rw [mem_singleton.mp hf]
      exact hi.good.passed
  · rw [if_neg hhead] at hf
    exact (hi.ended f hf).passed

def WholeFrame (b : List UInt8) : Prop :=
  frameHeaderSize ≤ b.length ∧
    b.length = frameHeaderSize + (tfwH2UnpackFrameHeader (b.take frameHeaderSize)).length

def PartFrame (b : List UInt8) : Prop :=
  b.length < frameHeaderSize ∨
    b.length < frameHeaderSize + (tfwH2UnpackFrameHeader (b.take frameHeaderSize)).length

lemma frame_prefixCode : PrefixCode WholeFrame PartFrame where
  whole := by
    intro a b r s ha hb h
    have htake : a.take frameHeaderSize = b.take frameHeaderSize := by
      have := congrArg (List.take frameHeaderSize) h
      rwa [take_append_of_le_length ha.1, take_append_of_le_length hb.1] at this
    have hlen : a.length = b.length := by
      rw [ha.2, hb.2, htake]
    exact (append_inj h hlen).1
  part := by
    intro a b r ha hb h
    have hlen := hb.2
    rw [h, PartFrame, take_append_of_le_length hb.1, length_append] at ha
    have := hb.1
    omega

lemma FrameRec.take_bytes (h : f.head.length = frameHeaderSize) :
    f.bytes.take frameHeaderSize = f.head := by
  rw [bytes, take_append_of_le_length h.ge, ← h, take_length]

lemma FrameRec.Ended.wholeFrame (h : f.Ended) (hpad : ¬f.PadOnly) : WholeFrame f.bytes := by
  unfold WholeFrame
  rw [take_bytes h.head, bytes, length_append, h.head, h.whole_length hpad]
  exact ⟨Nat.le_add_right _ _, rfl⟩

lemma ConnInv.partFrame (hi : ConnInv h2) (hst : h2.off.state ≠ .recvCliStartSeq) :
    PartFrame h2.cur.bytes := by
  unfold PartFrame
  rcases hi.unfinished hst with ⟨hlen, hnil⟩ | ⟨hlen, hlt⟩
  · left
    rw [bytes, hnil, append_nil]
    exact hlen
  · right
    rw [take_bytes hlen, bytes, length_append, hlen]
    exact Nat.add_lt_add_left hlt _

/-- The application data of the frames on a stream, by their bytes. -/
def streamData (fs : List (List UInt8)) (id : Nat) : List UInt8 :=
  fs.flatMap fun b =>
    let f : FrameRec := ⟨b.take frameHeaderSize, b.drop frameHeaderSize, [], [], none⟩
    if f.hdr.streamId = id then f.app else []

/-- The machine may hand a part of the frame to no stream, or lose its padding. -/
def FrameRec.Flawed (f : FrameRec) : Prop :=
  f.isApp = true ∧ (f.Lost ∨ f.PadOnly)

instance (f : FrameRec) : Decidable f.Flawed := by
  unfold FrameRec.Flawed
  infer_instance

lemma FrameRec.not_padOnly (h : ¬f.Flawed) : ¬f.PadOnly := by
  intro hpad
  refine h ⟨isApp_of_padded ?_, .inr hpad⟩
  rcases hpad with hpad | hpad
  · exact hpad.1
  · exact hpad.1

lemma FrameRec.Passed.delivered (h : f.Passed) (hok : ¬f.Flawed) (id : Nat) :
    (f.pieces.filter (·.stream = some id)).flatMap Upcall.data =
      if f.hdr.streamId = id then f.app else [] := by
  by_cases happ : f.isApp = true
  · have hstream : ∀ p ∈ f.pieces, p.stream = some f.hdr.streamId := by
      intro p hp
      rcases (h.pieces p hp).stream with hs | ⟨-, hlost⟩
      · exact hs
      · exact absurd ⟨happ, .inl hlost⟩ hok
    by_cases hid : f.hdr.streamId = id
    · rw [if_pos hid, ← h.all, handed, filter_eq_self.mpr]
      intro p hp
      rw [hstream p hp, hid]
      exact decide_eq_true rfl
    · rw [if_neg hid, filter_eq_nil_iff.mpr]
      · rfl
      · intro p hp
        rw [hstream p hp, decide_eq_true_iff, Option.some_inj]
        exact hid
  · have hnil : f.app = [] := by
      rw [app, if_neg happ]
    have hall := h.all
    rw [hnil, handed, flatMap_eq_nil_iff] at hall
    rw [hnil, ite_self, flatMap_eq_nil_iff]
    exact fun p hp => hall p (mem_of_mem_filter hp)

lemma FrameRec.ofBytes (h : f.head.length = frameHeaderSize) :
    (⟨f.bytes.take frameHeaderSize, f.bytes.drop frameHeaderSize, [], [], none⟩ : FrameRec) =
      ⟨f.head, f.payload, [], [], none⟩ := by
  rw [take_bytes h, bytes, drop_left' h]

lemma ConnInv.head_of_mem (hi : ConnInv h2) (hf : f ∈ h2.frames) :
    f.head.length = frameHeaderSize := by
  unfold frames at hf
  by_cases hhead : h2.cur.head.length = frameHeaderSize
  · rw [if_pos hhead] at hf
    rcases mem_append.mp hf with hf | hf
    · exact (hi.ended f hf).head
    · rw [mem_singleton.mp hf]
      exact hhead
  · rw [if_neg hhead] at hf
    exact (hi.ended f hf).head

lemma ConnInv.delivered_eq (hi : ConnInv h2) (hok : ∀ f ∈ h2.frames, ¬f.Flawed) (id : Nat) :
    h2.delivered id = streamData (h2.frames.map FrameRec.bytes) id := by
  rw [delivered, streamData, flatMap_map]
  apply flatMap_congr
  intro f hf
  rw [(hi.mem_frames hf).delivered (hok f hf) id, ofBytes (hi.head_of_mem hf)]
  rfl

lemma mem_frames_of_log (hf : f ∈ h2.log) : f ∈ h2.frames := by
  unfold frames
  by_cases hhead : h2.cur.head.length = frameHeaderSize
  · rw [if_pos hhead]
    exact mem_append_left _ hf
  · rw [if_neg hhead]
    exact hf

/-- Whether the header of the frame in progress is complete can be seen from the
number of its bytes. -/
theorem ConnInv.head_iff (hi : ConnInv h2) (hst : h2.off.state ≠ .recvCliStartSeq) :
    h2.cur.head.length = frameHeaderSize ↔ frameHeaderSize ≤ h2.cur.bytes.length := by
  rw [bytes, length_append]
  rcases hi.unfinished hst with ⟨hlen, hnil⟩ | ⟨hlen, -⟩
  · rw [hnil, length_nil]
    omega
  · omega

lemma ConnInv.frames_bytes (hi : ConnInv h2) (hst : h2.off.state ≠ .recvCliStartSeq) :
    h2.frames.map FrameRec.bytes =
      h2.log.map FrameRec.bytes ++
        if frameHeaderSize ≤ h2.cur.bytes.length then [h2.cur.bytes] else [] := by
  unfold frames
  by_cases hhead : h2.cur.head.length = frameHeaderSize
  · rw [if_pos hhead, if_pos ((hi.head_iff hst).mp hhead), map_append]
    rfl
  · rw [if_neg hhead, if_neg fun h => hhead ((hi.head_iff hst).mpr h), append_nil]

lemma ConnInv.atStart (hi : ConnInv h2) (hst : h2.off.state = .recvCliStartSeq) :
    h2.frames = [] ∧ h2.consumed.length < framePrefaceCliMagic.length := by
  have hp := hi.good.phase
  have hroom := hi.room
  unfold Phase at hp
  rw [hst] at hp
  rw [Room, frameToRead, hst] at hroom
  have hbytes : h2.cur.bytes = [] := by
    rw [bytes, hp.head, hp.payload]
    rfl
  refine ⟨?_, ?_⟩
  · rw [frames, hp.head, hi.start hst]
    rfl
  · rw [consumed_of_start h2 hst (hi.start hst) hbytes, length_take]
    exact lt_of_le_of_lt (Nat.min_le_left _ _) hroom

lemma consumed_length (hst : h2.off.state ≠ .recvCliStartSeq) :
    framePrefaceCliMagic.length ≤ h2.consumed.length := by
  rw [consumed_of_not_start h2 hst, append_assoc, length_append]
  exact Nat.le_add_right _ _

lemma ConnInv.frames_unique (hi : ConnInv h2) (hi' : ConnInv h2')
    (hok : ∀ f ∈ h2.frames, ¬f.Flawed) (hok' : ∀ f ∈ h2'.frames, ¬f.Flawed)
    (h : h2.consumed = h2'.consumed) :
    h2.frames.map FrameRec.bytes = h2'.frames.map FrameRec.bytes := by
  by_cases hst : h2.off.state = .recvCliStartSeq
  · have hstart := hi.atStart hst
    by_cases hst' : h2'.off.state = .recvCliStartSeq
    · rw [hstart.1, (hi'.atStart hst').1]
    · exact absurd (consumed_length hst') (Nat.not_le.mpr (h ▸ hstart.2))
  · by_cases hst' : h2'.off.state = .recvCliStartSeq
    · exact absurd (consumed_length hst) (Nat.not_le.mpr (h ▸ (hi'.atStart hst').2))
    · rw [consumed_of_not_start h2 hst, consumed_of_not_start h2' hst', append_assoc,
        append_assoc, flatMap_def, flatMap_def] at h
      have hwhole : ∀ {h2 : TfwH2Ctx}, ConnInv h2 → (∀ f ∈ h2.frames, ¬f.Flawed) →
          ∀ b ∈ h2.log.map bytes, WholeFrame b := by
        intro h2 hi hok b hb
        obtain ⟨f, hf, rfl⟩ := mem_map.mp hb
        exact (hi.ended f hf).wholeFrame (not_padOnly (hok f (mem_frames_of_log hf)))
      obtain ⟨hlog, hcur⟩ := frame_prefixCode.unique (hwhole hi hok) (hwhole hi' hok')
        (hi.partFrame hst) (hi'.partFrame hst') (append_cancel_left h)
      rw [hi.frames_bytes hst, hi'.frames_bytes hst', hlog, hcur]

/-- Two runs over the same bytes hand the same data up for every stream: the
application data of the frames on it. -/
theorem delivery_segmentation {es es' : List H2Event} {s s' : H2Sys}
    (h : es.foldlM h2Step h2Init = some s) (h' : es'.foldlM h2Step h2Init = some s')
    (hbytes : received es = received es') (hend : s.nskb = []) (hend' : s'.nskb = [])
    (hok : ∀ f ∈ s.h2.frames, ¬f.Flawed) (hok' : ∀ f ∈ s'.h2.frames, ¬f.Flawed) (id : Nat) :
    s.h2.delivered id = s'.h2.delivered id ∧
      s.h2.delivered id = streamData (s.h2.frames.map FrameRec.bytes) id := by
  have hran := h2Run_init h
  have hran' := h2Run_init h'
  have hconsumed : s.h2.consumed = s'.h2.consumed := by
    rw [hran.received, hran'.received, hend, hend', append_nil, append_nil] at hbytes
    exact hbytes
  have hdata := hran.inv.delivered_eq hok id
  refine ⟨?_, hdata⟩
  rw [hdata, hran'.inv.delivered_eq hok' id, hran.inv.frames_unique hran'.inv hok hok' hconsumed]

/-- A request with HEADERS in one skb and DATA in two. -/
def segmentedRun (cut : Nat) : List H2Event :=
  requestRun.take 1 ++
    [.recv (h2Frame 1 4 1 [0x82, 0x84, 0x87]) .quiet,
      .recv ((h2Frame 0 1 1 [65, 66, 67]).take cut) .quiet,
      .recv ((h2Frame 0 1 1 [65, 66, 67]).drop cut) .quiet]

theorem delivery_segmentation_data :
    ∃ s s', (segmentedRun 4).foldlM h2Step h2Init = some s ∧
      (segmentedRun 10).foldlM h2Step h2Init = some s' ∧ s.h2.delivered 1 = s'.h2.delivered 1 := by
  have hrun : ((segmentedRun 4).foldlM h2Step h2Init).map
      (fun s => decide (s.nskb = [] ∧ ∀ f ∈ s.h2.frames, ¬f.Flawed)) = some true := by
    decide +kernel
  have hrun' : ((segmentedRun 10).foldlM h2Step h2Init).map
      (fun s => decide (s.nskb = [] ∧ ∀ f ∈ s.h2.frames, ¬f.Flawed)) = some true := by
    decide +kernel
  obtain ⟨s, hs, heq⟩ := Option.map_eq_some_iff.mp hrun
  obtain ⟨s', hs', heq'⟩ := Option.map_eq_some_iff.mp hrun'
  obtain ⟨hend, hok⟩ := of_decide_eq_true heq
  obtain ⟨hend', hok'⟩ := of_decide_eq_true heq'
  exact ⟨s, s', hs, hs',
    (delivery_segmentation hs hs' (by decide +kernel) hend hend' hok hok' 1).1⟩

/-- The HEADERS frame that opens a stream, in one skb and in two. -/
def headersRun (cut : Nat) : List H2Event :=
  requestRun.take 1 ++
    [.recv ((h2Frame 1 5 1 [0x82, 0x84, 0x87]).take cut) .quiet,
      .recv ((h2Frame 1 5 1 [0x82, 0x84, 0x87]).drop cut) .quiet]

/-- What comes before the cut is handed up without a stream. -/
theorem headers_cut_lost :
    ∃ s s', (headersRun 9).foldlM h2Step h2Init = some s ∧
      (headersRun 11).foldlM h2Step h2Init = some s' ∧
      received (headersRun 9) = received (headersRun 11) ∧ s.nskb = [] ∧ s'.nskb = [] ∧
      s.h2.delivered 1 = [0x82, 0x84, 0x87] ∧ s'.h2.delivered 1 = [0x87] := by
  have hrun : ((headersRun 9).foldlM h2Step h2Init).map
      (fun s => decide (s.nskb = [] ∧ s.h2.delivered 1 = [0x82, 0x84, 0x87])) = some true := by
    decide +kernel
  have hrun' : ((headersRun 11).foldlM h2Step h2Init).map
      (fun s => decide (s.nskb = [] ∧ s.h2.delivered 1 = [0x87])) = some true := by
    decide +kernel
  obtain ⟨s, hs, heq⟩ := Option.map_eq_some_iff.mp hrun
  obtain ⟨s', hs', heq'⟩ := Option.map_eq_some_iff.mp hrun'
  obtain ⟨hend, hdata⟩ := of_decide_eq_true heq
  obtain ⟨hend', hdata'⟩ := of_decide_eq_true heq'
  exact ⟨s, s', hs, hs', by decide +kernel, hend, hend', hdata, hdata'⟩

end Tempesta.Http2
