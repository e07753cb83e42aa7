import Tempesta.Http2.Process
import Tempesta.Http2.Store

/-!
What holds while a frame is received. The parts of a frame are defined from its
bytes alone; the invariant says how the counters of the state machine follow them,
what is waiting in the list of skbs, and which stream the frame belongs to.
-/

namespace Tempesta.Http2

open List

namespace FrameRec

def hdr (f : FrameRec) : TfwFrameHdr :=
  tfwH2UnpackFrameHeader f.head

def bytes (f : FrameRec) : List UInt8 :=
  f.head ++ f.payload

def padded (f : FrameRec) : Bool :=
  (f.hdr.type == .data || f.hdr.type == .headers) && hasFlag f.hdr.flags .padded

def withPri (f : FrameRec) : Bool :=
  f.hdr.type == .headers && hasFlag f.hdr.flags .priority

def padBytes (f : FrameRec) : Nat :=
  if f.padded then 1 else 0

def padLen (f : FrameRec) : Nat :=
  if f.padded then (f.payload.getD 0 0).toNat else 0

/-- The length of the fields in front of the application data. -/
def fieldsLen (f : FrameRec) : Nat :=
  f.padBytes + if f.withPri then framePrioritySize else 0

def isApp (f : FrameRec) : Bool :=
  f.hdr.type == .data || f.hdr.type == .headers || f.hdr.type == .continuation

def appLen (f : FrameRec) : Nat :=
  f.hdr.length - f.fieldsLen - f.padLen

def app (f : FrameRec) : List UInt8 :=
  if f.isApp then (f.payload.drop f.fieldsLen).take f.appLen else []

def dep (f : FrameRec) : Nat :=
  if f.withPri then (tfwH2UnpackPriority (f.payload.drop f.padBytes)).streamId else 0

/-- The application data that has been handed to the HTTP layer. -/
def handed (f : FrameRec) : List UInt8 :=
  f.pieces.flatMap Upcall.data

def PadOnly (f : FrameRec) : Prop :=
  f.padded = true ∧ 0 < f.padLen ∧ f.hdr.length = f.fieldsLen + f.padLen ∨
    f.padded = true ∧ 0 < f.padLen ∧ f.hdr.length = f.padBytes + f.padLen

instance (f : FrameRec) : Decidable f.PadOnly := by
  unfold PadOnly
  infer_instance

/-- A part of the payload may reach the HTTP layer without a stream: HEADERS that
opens a stream and is cut within its application data, HEADERS that depends on its
own stream, and a frame on a stream that the peer has already ended. -/
def Lost (f : FrameRec) : Prop :=
  (f.hdr.type = .headers ∧ f.found = none ∧
      ∃ c ∈ f.cuts, f.fieldsLen < c ∧ c < f.fieldsLen + f.appLen) ∨
    f.dep = f.hdr.streamId ∨ f.found = some .remHalfClosed

instance (f : FrameRec) : Decidable f.Lost := by
  unfold Lost
  infer_instance

/-- What a call of the HTTP layer is made with. -/
structure PieceOk (f : FrameRec) (p : Upcall) : Prop where
  plen : p.plen + f.fieldsLen = f.hdr.length
  data : p.data ≠ []
  stream : p.stream = some f.hdr.streamId ∨ p.stream = none ∧ f.Lost

/-- All of the application data has been handed up. -/
structure Passed (f : FrameRec) : Prop where
  all : f.handed = f.app
  pieces : ∀ p ∈ f.pieces, f.PieceOk p

end FrameRec

/-- The facts about the counters that depend on the state of the machine. -/
def Detail (o : FrameCtx) (f : FrameRec) : Prop :=
  match o.state with
  | .recvFrameHeader => False
  | .recvCliStartSeq => False
  | .recvFirstSettings => False
  | .recvFramePriority => f.hdr.type = .priority ∧ o.toRead = 5 ∧ o.padlen = 0 ∧ o.hdr.length = 0
  | .recvFrameWndUpdate =>
    f.hdr.type = .windowUpdate ∧ o.toRead = 4 ∧ o.padlen = 0 ∧ o.hdr.length = 0
  | .recvFramePing => f.hdr.type = .ping ∧ o.toRead = 8 ∧ o.padlen = 0 ∧ o.hdr.length = 0
  | .recvFrameRstStream =>
    f.hdr.type = .rstStream ∧ o.toRead = 4 ∧ o.padlen = 0 ∧ o.hdr.length = 0
  | .recvFrameSettings =>
    f.hdr.type = .settings ∧ hasFlag f.hdr.flags .ack = false ∧ f.hdr.length ≠ 0 ∧
      o.toRead = 6 ∧ o.padlen = 0 ∧ o.hdr.length % 6 = 0
  | .recvFrameGoaway => f.hdr.type = .goaway ∧ o.toRead = 8 ∧ o.padlen = 0
  | .recvFramePadded =>
    f.padded = true ∧ o.toRead = 1 ∧ o.padlen = 0 ∧ o.priority.streamId = 0 ∧
      f.payload.length = o.rlen ∧ o.rbuf.take o.rlen = f.payload ∧ o.plen + 1 = f.hdr.length
  | .recvHeaderPri =>
    f.withPri = true ∧ o.toRead = 5 ∧ o.padlen = f.padLen ∧
      f.payload.length = f.padBytes + o.rlen ∧
      o.rbuf.take o.rlen = f.payload.drop f.padBytes ∧ o.plen + f.fieldsLen = f.hdr.length
  | .ignoreFrameData => f.hdr.type ≠ .settings ∧ o.padlen = 0 ∧ o.hdr.length = 0
  | .recvHeader => f.hdr.type = .headers ∧ App
  | .recvCont => f.hdr.type = .continuation ∧ App
  | .recvData => f.hdr.type = .data ∧ App
where
  App : Prop :=
    o.padlen = f.padLen ∧ o.hdr.length = 0 ∧ f.payload.length = f.fieldsLen + o.rlen ∧
      o.priority.streamId = f.dep ∧ o.plen + f.fieldsLen = f.hdr.length

/-- In the payload of a frame: what has been read, what is left to read in this
state, and what the other counters hold add up to the length of the frame. -/
structure InFrame (o : FrameCtx) (f : FrameRec) : Prop where
  head : f.head.length = frameHeaderSize
  type : o.hdr.type = f.hdr.type
  flags : o.hdr.flags = f.hdr.flags
  streamId : o.hdr.streamId = f.hdr.streamId
  le : o.rlen ≤ o.toRead
  owed : f.payload.length + (o.toRead - o.rlen) + o.hdr.length + o.padlen = f.hdr.length
  detail : Detail o f

/-- A cleared context, but for the state and what is read. -/
def Cleared (o : FrameCtx) : Prop :=
  o = { FrameCtx.zero with
    state := o.state, rlen := o.rlen, rbuf := o.rbuf, skbHead := o.skbHead }

structure AtHeader (o : FrameCtx) (f : FrameRec) : Prop where
  cleared : Cleared o
  rbuf : o.rbuf = f.head
  rlen : o.rlen = f.head.length
  le : o.rlen ≤ frameHeaderSize
  payload : f.payload = []
  pieces : f.pieces = []

structure AtStart (o : FrameCtx) (f : FrameRec) : Prop where
  cleared : Cleared o
  rbuf : o.rbuf = []
  le : o.rlen ≤ 24
  head : f.head = []
  payload : f.payload = []
  pieces : f.pieces = []

def Phase (o : FrameCtx) (f : FrameRec) : Prop :=
  match o.state with
  | .recvCliStartSeq => AtStart o f
  | .recvFirstSettings => AtHeader o f
  | .recvFrameHeader => AtHeader o f
  | _ => InFrame o f

/-- What has been taken from the skbs and not handed up: the list of skbs and the
part `q` of the one that is being read. -/
def Queue (o : FrameCtx) (f : FrameRec) (q : List UInt8) : Prop :=
  match o.state with
  | .recvFrameHeader => o.skbHead.flatten ++ q = f.head
  | .recvFramePadded =>
    o.skbHead.flatten ++ q = f.bytes ∧ o.dataOff = frameHeaderSize ∧ f.pieces = []
  | .recvHeaderPri =>
    o.skbHead.flatten ++ q = f.bytes ∧ o.dataOff = frameHeaderSize + f.padBytes ∧ f.pieces = []
  | .recvHeader => App
  | .recvCont => App
  | .recvData => App
  | .ignoreFrameData =>
    f.Passed ∧ (f.isApp = true → f.payload ≠ [] ∧ f.fieldsLen + f.appLen ≤ f.payload.length)
  | _ => f.pieces = []
where
  /-- The data in front of the offset is not application data, and all of it is in
  the skbs of the list and the first bytes of `q`. -/
  App : Prop :=
    o.skbHead.flatten.length ≤ o.dataOff ∧ o.dataOff ≤ (o.skbHead.flatten ++ q).length ∧
      f.handed ++ (o.skbHead.flatten ++ q).drop o.dataOff = f.payload.drop f.fieldsLen ∧
      ∀ p ∈ f.pieces, f.PieceOk p

variable {f : FrameRec} {b q rbuf tail : List UInt8} {p : Upcall} {h2 : TfwH2Ctx} {rlen : Nat}
  {o : FrameCtx}

namespace FrameRec

lemma fieldsLen_of_padded (h : f.padded = true) : 1 ≤ f.fieldsLen := by
  simp only [fieldsLen, padBytes, h, if_true]
  omega

lemma fieldsLen_of_withPri (h : f.withPri = true) : f.fieldsLen = f.padBytes + 5 := by
  simp only [fieldsLen, h, if_true, framePrioritySize]

lemma payload_ne_nil (h : f.fieldsLen ≤ f.payload.length) (hp : f.padded = true) :
    f.payload ≠ [] := by
  intro hnil
  have := fieldsLen_of_padded hp
  rw [hnil, length_nil] at h
  omega

lemma padLen_append (h : f.padded = true → f.payload ≠ []) :
    padLen { f with payload := f.payload ++ b } = f.padLen := by
  show (if f.padded then ((f.payload ++ b).getD 0 0).toNat else 0) = _
  unfold padLen
  by_cases hp : f.padded = true
  · have hlen : 0 < f.payload.length := length_pos_of_ne_nil (h hp)
    rw [if_pos hp, if_pos hp]
    simp only [getD_eq_getElem?_getD, getElem?_append_left hlen]
  · rw [if_neg hp, if_neg hp]

lemma padBytes_of_padded (h : f.padded = true) : f.padBytes = 1 := by
  simp only [padBytes, h, if_true]

lemma padBytes_le_fieldsLen (f : FrameRec) : f.padBytes ≤ f.fieldsLen :=
  Nat.le_add_right ..

lemma dep_append (h : f.withPri = true → f.fieldsLen ≤ f.payload.length) :
    dep { f with payload := f.payload ++ b } = f.dep := by
  show (if f.withPri then (tfwH2UnpackPriority ((f.payload ++ b).drop f.padBytes)).streamId
    else 0) = _
  unfold dep
  by_cases hp : f.withPri = true
  · have hlen := h hp
    rw [fieldsLen_of_withPri hp] at hlen
    rw [if_pos hp, if_pos hp]
    simp only [tfwH2UnpackPriority]
    rw [drop_append_of_le_length (by omega), take_append_of_le_length]
    rw [length_drop]
    omega
  · rw [if_neg hp, if_neg hp]

lemma appLen_append (h : f.padded = true → f.payload ≠ []) :
    appLen { f with payload := f.payload ++ b } = f.appLen := by
  unfold appLen
  rw [padLen_append h]
  rfl

lemma app_append
    (h : f.isApp = true → f.payload ≠ [] ∧ f.fieldsLen + f.appLen ≤ f.payload.length) :
    app { f with payload := f.payload ++ b } = f.app := by
  by_cases hi : f.isApp = true
  · obtain ⟨hne, hlen⟩ := h hi
    have hlen' := appLen_append (b := b) fun _ => hne
    show (if f.isApp then ((f.payload ++ b).drop f.fieldsLen).take (appLen _) else []) = _
    unfold app
    rw [if_pos hi, if_pos hi, hlen', drop_append_of_le_length (by omega),
      take_append_of_le_length]
    rw [length_drop]
    omega
  · show (if f.isApp then _ else []) = _
    unfold app
    rw [if_neg hi, if_neg hi]

lemma isApp_of_padded (h : f.padded = true) : f.isApp = true := by
  simp only [padded, Bool.and_eq_true] at h
  simp only [isApp, h.1, Bool.true_or]

lemma isApp_of_withPri (h : f.withPri = true) : f.isApp = true := by
  simp only [withPri, Bool.and_eq_true] at h
  simp only [isApp, h.1, Bool.or_true, Bool.true_or]

lemma PieceOk.append (h : f.PieceOk p) (hpad : f.padded = true → f.payload ≠ [])
    (hdep : f.withPri = true → f.fieldsLen ≤ f.payload.length) :
    PieceOk { f with payload := f.payload ++ b } p := by
  refine ⟨h.plen, h.data, ?_⟩
  rcases h.stream with hs | ⟨hs, hlost⟩
  · exact .inl hs
  refine .inr ⟨hs, ?_⟩
  unfold Lost
  rw [appLen_append hpad, dep_append hdep]
  exact hlost

end FrameRec

lemma take_rbuf (h : rbuf.take rlen = tail) (hlen : tail.length = rlen) (b : List UInt8) :
    (rbuf.take rlen ++ b).take (rlen + b.length) = tail ++ b := by
  rw [h, take_of_length_le]
  rw [length_append]
  omega

lemma Detail.App.read (h : Detail.App o f) (rbuf b : List UInt8) :
    Detail.App { o with rbuf := rbuf, rlen := o.rlen + b.length }
      { f with payload := f.payload ++ b } := by
  obtain ⟨hpad, hhdr, hpay, hdep, hplen⟩ := h
  have hfields : f.fieldsLen ≤ f.payload.length := by omega
  refine ⟨?_, hhdr, ?_, ?_, hplen⟩
  · rw [FrameRec.padLen_append (FrameRec.payload_ne_nil hfields)]
    exact hpad
  · show (f.payload ++ b).length = f.fieldsLen + (o.rlen + b.length)
    rw [length_append]
    omega
  · rw [FrameRec.dep_append fun _ => hfields]
    exact hdep

lemma Detail.read (h : Detail o f) (b : List UInt8) :
    Detail
      { o with
        rbuf := if o.state.srvc then o.rbuf.take o.rlen ++ b else o.rbuf
        rlen := o.rlen + b.length }
      { f with payload := f.payload ++ b } := by
  unfold Detail at h ⊢
  cases hst : o.state with
  | recvFrameHeader | recvCliStartSeq | recvFirstSettings =>
    rw [hst] at h
    exact absurd h id
  | recvHeader | recvCont | recvData =>
    rw [hst] at h
    exact ⟨h.1, h.2.read o.rbuf b⟩
  | recvFramePadded =>
    rw [hst] at h
    obtain ⟨hp, htr, hpad, hprio, hlen, hbuf, hplen⟩ := h
    refine ⟨hp, htr, hpad, hprio, ?_, take_rbuf hbuf hlen b, hplen⟩
    show (f.payload ++ b).length = o.rlen + b.length
    rw [length_append, hlen]
  | recvHeaderPri =>
    rw [hst] at h
    obtain ⟨hp, htr, hpad, hlen, hbuf, hplen⟩ := h
    have hle : f.padBytes ≤ f.payload.length := by omega
    refine ⟨hp, htr, ?_, ?_, ?_, hplen⟩
    · rw [FrameRec.padLen_append]
      · exact hpad
      · intro hpd hnil
        rw [hnil, FrameRec.padBytes_of_padded hpd] at hle
        exact absurd hle (by decide)
    · show (f.payload ++ b).length = f.padBytes + (o.rlen + b.length)
      rw [length_append]
      omega
    · show List.take (o.rlen + b.length) (o.rbuf.take o.rlen ++ b) =
        (f.payload ++ b).drop f.padBytes
      rw [drop_append_of_le_length hle]
      apply take_rbuf hbuf
      rw [length_drop]
      omega
  | _ =>
    rw [hst] at h
    exact h

lemma read_of_detail (h : Detail o f) (b : List UInt8) :
    f.read o.state b = { f with payload := f.payload ++ b } := by
  unfold Detail at h
  cases hst : o.state with
  | recvFrameHeader | recvCliStartSeq | recvFirstSettings =>
    rw [hst] at h
    exact absurd h id
  | _ => rfl

lemma InFrame.read (h : InFrame h2.off h2.cur) (hb : b.length ≤ h2.off.toRead - h2.off.rlen) :
    InFrame (h2.fsmRead b).off (h2.fsmRead b).cur := by
  have hle := h.le
  have howed := h.owed
  simp only [TfwH2Ctx.fsmRead, read_of_detail h.detail]
  refine ⟨h.head, h.type, h.flags, h.streamId, ?_, ?_, h.detail.read b⟩
  · show h2.off.rlen + b.length ≤ h2.off.toRead
    omega
  · show (h2.cur.payload ++ b).length + (h2.off.toRead - (h2.off.rlen + b.length)) +
      h2.off.hdr.length + h2.off.padlen = h2.cur.hdr.length
    rw [length_append]
    omega

lemma Queue.App.read (h : Queue.App o f q) (hfields : f.fieldsLen ≤ f.payload.length)
    (rbuf : List UInt8) (rlen : Nat) (b : List UInt8) :
    Queue.App { o with rbuf := rbuf, rlen := rlen } { f with payload := f.payload ++ b }
      (q ++ b) := by
  obtain ⟨hskb, hoff, hdata, hpieces⟩ := h
  refine ⟨hskb, ?_, ?_, fun p hp => (hpieces p hp).append ?_ fun _ => hfields⟩
  · show o.dataOff ≤ (o.skbHead.flatten ++ (q ++ b)).length
    rw [← append_assoc, length_append]
    omega
  · show f.handed ++ (o.skbHead.flatten ++ (q ++ b)).drop o.dataOff =
      (f.payload ++ b).drop f.fieldsLen
    rw [← append_assoc, drop_append_of_le_length hoff, ← append_assoc, hdata,
      drop_append_of_le_length hfields]
  · exact FrameRec.payload_ne_nil hfields

lemma Queue.read (hq : Queue h2.off h2.cur q) (h : InFrame h2.off h2.cur) (b : List UInt8) :
    Queue (h2.fsmRead b).off (h2.fsmRead b).cur (q ++ b) := by
  have hdetail := h.detail
  simp only [TfwH2Ctx.fsmRead, read_of_detail hdetail]
  unfold Queue at hq ⊢
  unfold Detail at hdetail
  cases hst : h2.off.state with
  | recvFrameHeader | recvCliStartSeq | recvFirstSettings =>
    rw [hst] at hdetail
    exact absurd hdetail id
  | recvHeader | recvCont | recvData =>
    rw [hst] at hq hdetail
    obtain ⟨-, -, -, hlen, -⟩ := hdetail
    exact Queue.App.read hq (by omega) h2.off.rbuf h2.off.rlen b
  | recvFramePadded | recvHeaderPri =>
    rw [hst] at hq
    obtain ⟨hbytes, hoff, hpieces⟩ := hq
    refine ⟨?_, hoff, hpieces⟩
    show h2.off.skbHead.flatten ++ (q ++ b) = h2.cur.head ++ (h2.cur.payload ++ b)
    rw [← append_assoc, hbytes, ← append_assoc]
    rfl
  | ignoreFrameData =>
    rw [hst] at hq
    obtain ⟨⟨happ, hpieces⟩, hfull⟩ := hq
    refine ⟨⟨?_, fun p hp => (hpieces p hp).append ?_ ?_⟩, ?_⟩
    · rw [FrameRec.app_append hfull]
      exact happ
    · exact fun hpad => (hfull (FrameRec.isApp_of_padded hpad)).1
    · intro hpri
      have := (hfull (FrameRec.isApp_of_withPri hpri)).2
      omega
    · intro hi
      obtain ⟨hne, hlen⟩ := hfull hi
      rw [FrameRec.appLen_append fun _ => hne]
      refine ⟨?_, ?_⟩
      · exact append_ne_nil_of_left_ne_nil hne b
      · show h2.cur.fieldsLen + h2.cur.appLen ≤ (h2.cur.payload ++ b).length
        rw [length_append]
        omega
  | _ =>
    rw [hst] at hq
    exact hq

lemma AtHeader.read (h : AtHeader h2.off h2.cur)
    (hst : h2.off.state = .recvFrameHeader ∨ h2.off.state = .recvFirstSettings)
    (hb : b.length ≤ frameHeaderSize - h2.off.rlen) :
    AtHeader (h2.fsmRead b).off (h2.fsmRead b).cur := by
  obtain ⟨hclear, hbuf, hlen, hle, hpay, hpieces⟩ := h
  have hsrvc : h2.off.state.srvc = true := by
    rcases hst with hst | hst <;> rw [hst] <;> rfl
  have hcur : h2.cur.read h2.off.state b = { h2.cur with head := h2.cur.head ++ b } := by
    rcases hst with hst | hst <;> rw [hst] <;> rfl
  have htake : h2.off.rbuf.take h2.off.rlen = h2.cur.head := by
    rw [hbuf, hlen, take_length]
  simp only [TfwH2Ctx.fsmRead, hcur, hsrvc, if_true, htake]
  refine ⟨?_, rfl, ?_, ?_, hpay, hpieces⟩
  · unfold Cleared at hclear ⊢
    rw [hclear]
  · simp only [length_append, hlen]
  · show h2.off.rlen + b.length ≤ frameHeaderSize
    omega

lemma AtStart.read (h : AtStart h2.off h2.cur) (hst : h2.off.state = .recvCliStartSeq)
    (hb : b.length ≤ 24 - h2.off.rlen) : AtStart (h2.fsmRead b).off (h2.fsmRead b).cur := by
  obtain ⟨hclear, hbuf, hle, hhead, hpay, hpieces⟩ := h
  simp only [TfwH2Ctx.fsmRead, hst]
  refine ⟨?_, hbuf, ?_, hhead, hpay, hpieces⟩
  · unfold Cleared at hclear ⊢
    rw [hclear]
  · show h2.off.rlen + b.length ≤ 24
    omega

def TfwStreamState.receiving : TfwStreamState → Bool
  | opened | cont | contClosed => true
  | _ => false

/-- The frame ends the stream: nothing of the request is to follow. -/
def TfwFrameHdr.ends (hdr : TfwFrameHdr) : Bool :=
  match hdr.type with
  | .data => hasFlag hdr.flags .endStream
  | .headers => hasFlag hdr.flags .endStream && hasFlag hdr.flags .endHeaders
  | _ => false

/-- The stream of the frame. In front of the application data, only HEADERS may be
without a stream, and opens it; behind the application data, a frame that ends the
stream has done so. -/
def CurDetail (h2 : TfwH2Ctx) : Prop :=
  match h2.off.state with
  | .recvFramePadded => Opens
  | .recvHeaderPri => Opens
  | .recvHeader => Opens
  | .recvData => Opens
  | .recvCont => Opens
  | .recvFrameRstStream => h2.off.curStream ≠ none
  | .ignoreFrameData => Past
  | _ => True
where
  Opens : Prop :=
    (h2.off.curStream = none → h2.off.hdr.type = .headers ∧
      h2.store.lstreamId < h2.off.hdr.streamId ∧ h2.cur.found = none) ∧
    ∀ id t, h2.off.curStream = some id → h2.store.tfwH2FindStream id = some t →
      t.state = .remHalfClosed → h2.cur.found = some .remHalfClosed
  Past : Prop :=
    h2.off.hdr.ends = true →
      match h2.store.tfwH2FindStream h2.off.hdr.streamId with
      | none => h2.cur.dep = h2.cur.hdr.streamId
      | some t => t.state.receiving = false

/-- The invariant of a connection, with the part `q` of the current skb that has
been read. -/
structure GoodAt (h2 : TfwH2Ctx) (q : List UInt8) : Prop where
  lset : h2.lsettings = tfwH2ContextInit.lsettings
  inv : h2.store.Inv
  last : h2.store.lstreamId < 2 ^ 31
  phase : Phase h2.off h2.cur
  queue : Queue h2.off h2.cur q
  mem : ∀ id, h2.off.curStream = some id → id = h2.off.hdr.streamId ∧ id ∈ h2.store.ids
  curs : CurDetail h2
  closed : ∀ t ∈ h2.store.streams, t.state = .closed →
    h2.off.state = .recvFrameRstStream ∧ h2.off.curStream = some t.id

lemma GoodAt.init : GoodAt tfwH2ContextInit [] where
  lset := rfl
  inv := .empty
  last := by decide
  phase := ⟨rfl, rfl, Nat.zero_le _, rfl, rfl, rfl⟩
  queue := rfl
  mem := nofun
  curs := trivial
  closed := nofun

def Room (o : FrameCtx) : Prop :=
  o.rlen < TfwH2Ctx.frameToRead o

lemma phase_cases (o : FrameCtx) (f : FrameRec) (h : Phase o f) :
    (o.state = .recvCliStartSeq ∧ AtStart o f) ∨
      ((o.state = .recvFrameHeader ∨ o.state = .recvFirstSettings) ∧ AtHeader o f) ∨
      InFrame o f := by
  unfold Phase at h
  cases hst : o.state with
  | recvCliStartSeq =>
    rw [hst] at h
    exact .inl ⟨rfl, h⟩
  | recvFrameHeader =>
    rw [hst] at h
    exact .inr (.inl ⟨.inl rfl, h⟩)
  | recvFirstSettings =>
    rw [hst] at h
    exact .inr (.inl ⟨.inr rfl, h⟩)
  | _ =>
    rw [hst] at h
    exact .inr (.inr h)

lemma InFrame.phase (h : InFrame o f) : Phase o f := by
  have hd := h.detail
  unfold Phase
  unfold Detail at hd
  cases hst : o.state with
  | recvFrameHeader | recvCliStartSeq | recvFirstSettings =>
    rw [hst] at hd
    exact absurd hd id
  | _ => exact h

lemma InFrame.frameToRead (h : InFrame o f) : TfwH2Ctx.frameToRead o = o.toRead := by
  have hd := h.detail
  unfold TfwH2Ctx.frameToRead
  unfold Detail at hd
  cases hst : o.state with
  | recvFrameHeader | recvCliStartSeq | recvFirstSettings =>
    rw [hst] at hd
    exact absurd hd id
  | _ => rfl

lemma dep_read (hf : InFrame h2.off h2.cur) (hq : Queue h2.off h2.cur q)
    (hst : h2.off.state = .ignoreFrameData) (b : List UInt8) :
    (h2.fsmRead b).cur.dep = h2.cur.dep := by
  simp only [TfwH2Ctx.fsmRead, read_of_detail hf.detail]
  unfold Queue at hq
  rw [hst] at hq
  apply FrameRec.dep_append
  intro hpri
  have := (hq.2 (FrameRec.isApp_of_withPri hpri)).2
  omega

lemma CurDetail.read (h : CurDetail h2) (hf : InFrame h2.off h2.cur) (hq : Queue h2.off h2.cur q)
    (b : List UInt8) : CurDetail (h2.fsmRead b) := by
  have hdep := dep_read hf hq
  unfold CurDetail at h ⊢
  have hstate : (h2.fsmRead b).off.state = h2.off.state := rfl
  rw [hstate]
  cases hst : h2.off.state with
  | recvFramePadded | recvHeaderPri | recvHeader | recvData | recvCont =>
    rw [hst] at h
    have hfound : (h2.fsmRead b).cur.found = h2.cur.found := by
      simp only [TfwH2Ctx.fsmRead, hst, FrameRec.read]
    simp only [CurDetail.Opens, hfound]
    exact h
  | ignoreFrameData =>
    rw [hst] at h
    have hhdr : (h2.fsmRead b).cur.hdr = h2.cur.hdr := by
      simp only [TfwH2Ctx.fsmRead, hst, FrameRec.read]
      rfl
    simp only [CurDetail.Past, hdep hst, hhdr]
    exact h
  | _ =>
    rw [hst] at h
    exact h

lemma GoodAt.read (h : GoodAt h2 q) (hb : b.length ≤ TfwH2Ctx.frameToRead h2.off - h2.off.rlen) :
    GoodAt (h2.fsmRead b) (q ++ b) := by
  have hstate : (h2.fsmRead b).off.state = h2.off.state := rfl
  refine ⟨h.lset, h.inv, h.last, ?_, ?_, h.mem, ?_, h.closed⟩
  · rcases phase_cases _ _ h.phase with ⟨hst, hp⟩ | ⟨hst, hp⟩ | hp
    · unfold Phase
      rw [hstate, hst]
      apply hp.read hst
      simpa only [TfwH2Ctx.frameToRead, hst] using hb
    · have hread := hp.read hst (b := b) (by
        rcases hst with hst | hst <;> simpa only [TfwH2Ctx.frameToRead, hst] using hb)
      unfold Phase
      rw [hstate]
      rcases hst with hst | hst
      · rw [hst]
        exact hread
      · rw [hst]
        exact hread
    · exact (hp.read (hp.frameToRead ▸ hb)).phase
  · rcases phase_cases _ _ h.phase with ⟨hst, hp⟩ | ⟨hst, hp⟩ | hp
    · unfold Queue
      rw [hstate, hst]
      simp only [TfwH2Ctx.fsmRead, hst]
      exact hp.pieces
    · have hq := h.queue
      unfold Queue at hq ⊢
      rw [hstate]
      rcases hst with hst | hst
      · rw [hst] at hq ⊢
        simp only [TfwH2Ctx.fsmRead, hst, FrameRec.read]
        rw [← append_assoc, hq]
      · rw [hst]
        simp only [TfwH2Ctx.fsmRead, hst, FrameRec.read]
        exact hp.pieces
    · exact h.queue.read hp b
  · rcases phase_cases _ _ h.phase with ⟨hst, -⟩ | ⟨hst | hst, -⟩ | hp
    · unfold CurDetail
      rw [hstate, hst]
      trivial
    · unfold CurDetail
      rw [hstate, hst]
      trivial
    · unfold CurDetail
      rw [hstate, hst]
      trivial
    · exact h.curs.read hp h.queue b

end Tempesta.Http2
