import Tempesta.Http2.Framing
import Tempesta.Lib.Post

/-!
What a state of the frame machine may lead to when its data has been read: it goes on
to a state in which the invariant holds again, or it ends the frame, or the
connection is dropped. Here for the fields in front of the application data.
-/

namespace Tempesta.Http2

open List PostLib TfwH2Ctx FrameRec

/-- The frame machine gives up only by dropping the connection. -/
def H2Stop.IsDrop : H2Stop → Prop
  | drop _ => True
  | _ => False

def H2Store.NoClosed (s : H2Store) : Prop :=
  ∀ t ∈ s.streams, t.state ≠ .closed

lemma H2Store.NoClosed.no {s : H2Store} (h : s.NoClosed) {P : TfwStream → Prop} :
    ∀ t ∈ s.streams, t.state = .closed → P t :=
  fun t ht hc => absurd hc (h t ht)

/-- What does not depend on how far the frame has been read. -/
structure Core (h2 : TfwH2Ctx) : Prop where
  lset : h2.lsettings = tfwH2ContextInit.lsettings
  inv : h2.store.Inv
  last : h2.store.lstreamId < 2 ^ 31
  mem : ∀ id, h2.off.curStream = some id → id = h2.off.hdr.streamId ∧ id ∈ h2.store.ids
  head : h2.cur.head.length = frameHeaderSize
  type : h2.off.hdr.type = h2.cur.hdr.type
  flags : h2.off.hdr.flags = h2.cur.hdr.flags
  streamId : h2.off.hdr.streamId = h2.cur.hdr.streamId

/-- At the end of the application data, if there is any. -/
structure AppEnd (h2 : TfwH2Ctx) (q : List UInt8) : Prop where
  isApp : h2.cur.isApp = true
  padlen : h2.off.padlen = h2.cur.padLen
  read : h2.cur.fieldsLen < h2.cur.payload.length
  plen : h2.off.plen + h2.cur.fieldsLen = h2.cur.hdr.length
  length : h2.off.hdr.length = 0
  dataOff : h2.off.dataOff < (h2.off.skbHead.flatten ++ q).length
  queue : Queue.App h2.off h2.cur q
  past : CurDetail.Past h2
  lost : h2.off.curStream = none → h2.cur.Lost

/-- At the end of a frame, before the context is cleared. -/
structure Exited (h2 : TfwH2Ctx) (q : List UInt8) : Prop extends Core h2 where
  closed : h2.store.NoClosed
  owed : h2.cur.payload.length + h2.off.padlen = h2.cur.hdr.length
  settings : h2.off.state = .recvFrameSettings ↔
    h2.cur.hdr.type = .settings ∧ h2.cur.hdr.length ≠ 0
  noAck : h2.off.state = .recvFrameSettings → hasFlag h2.cur.hdr.flags .ack = false
  app : h2.off.state.app = true → AppEnd h2 q
  other : h2.off.state.app = false → h2.cur.Passed ∧ (h2.off.padlen = 0 ∨ h2.cur.PadOnly)

/-- What the machine has when a state is done: the invariant and something to read,
or the end of the frame. -/
def Goes (q : List UInt8) (r : TfwH2Ctx × Bool) : Prop :=
  if r.2 then GoodAt { r.1 with off.rlen := 0 } q ∧ 0 < frameToRead r.1.off else Exited r.1 q

variable {h2 h2' : TfwH2Ctx} {q : List UInt8} {f : FrameRec} {st next : TfwFrameState} {n : Nat}

lemma Core.good (h : Core h2) (hle : h2.off.rlen ≤ h2.off.toRead)
    (howed : h2.cur.payload.length + (h2.off.toRead - h2.off.rlen) + h2.off.hdr.length +
      h2.off.padlen = h2.cur.hdr.length)
    (hdetail : Detail h2.off h2.cur) (hqueue : Queue h2.off h2.cur q) (hcurs : CurDetail h2)
    (hclosed : ∀ t ∈ h2.store.streams, t.state = .closed → h2.off.state = .recvFrameRstStream ∧
      h2.off.curStream = some t.id) :
    GoodAt h2 q :=
  ⟨h.lset, h.inv, h.last,
    InFrame.phase ⟨h.head, h.type, h.flags, h.streamId, hle, howed, hdetail⟩, hqueue, h.mem,
    hcurs, hclosed⟩

lemma GoodAt.core (h : GoodAt h2 q) (hf : InFrame h2.off h2.cur) : Core h2 :=
  ⟨h.lset, h.inv, h.last, h.mem, hf.head, hf.type, hf.flags, hf.streamId⟩

lemma app_ne (h : st.app = true) (h' : next.app = false) : st ≠ next := by
  rintro rfl
  cases h.symm.trans h'

lemma GoodAt.inFrame (h : GoodAt h2 q) (h₁ : h2.off.state ≠ .recvCliStartSeq)
    (h₂ : h2.off.state ≠ .recvFrameHeader) (h₃ : h2.off.state ≠ .recvFirstSettings) :
    InFrame h2.off h2.cur := by
  rcases phase_cases _ _ h.phase with ⟨hst, -⟩ | ⟨hst | hst, -⟩ | hf
  · exact absurd hst h₁
  · exact absurd hst h₂
  · exact absurd hst h₃
  · exact hf

lemma GoodAt.noClosed (h : GoodAt h2 q) (hst : h2.off.state ≠ .recvFrameRstStream) :
    h2.store.NoClosed :=
  fun t ht hc => hst (h.closed t ht hc).1

lemma FrameRec.Passed.of_not_app (hp : f.pieces = []) (happ : f.isApp = false) : f.Passed := by
  constructor
  · unfold handed app
    rw [hp, happ]
    rfl
  · rw [hp]
    nofun

lemma FrameRec.Passed.of_empty (hp : f.pieces = []) (hlen : f.appLen = 0) : f.Passed := by
  constructor
  · unfold handed app
    rw [hp, hlen, take_zero, ite_self]
    rfl
  · rw [hp]
    nofun

lemma Core.exit (h : Core h2) (hclosed : h2.store.NoClosed) (hp : h2.cur.pieces = [])
    (happ : h2.cur.isApp = false) (htype : h2.cur.hdr.type = .settings → h2.cur.hdr.length = 0)
    (hst : h2.off.state.app = false) (hst' : h2.off.state ≠ .recvFrameSettings)
    (hpad : h2.off.padlen = 0) (hlen : h2.cur.payload.length = h2.cur.hdr.length) :
    Exited h2 q where
  toCore := h
  closed := hclosed
  owed := by omega
  settings := ⟨fun h => absurd h hst', fun h => absurd (htype h.1) h.2⟩
  noAck := fun h => absurd h hst'
  app := fun h => by rw [hst] at h; cases h
  other := fun _ => ⟨.of_not_app hp happ, .inl hpad⟩

lemma GoodAt.exitService (h : GoodAt h2 q) (h2' : TfwH2Ctx) (hdone : h2.off.rlen = h2.off.toRead)
    (hst : h2.off.state = st)
    (hcase : st = .recvFramePriority ∨ st = .recvFrameWndUpdate ∨ st = .recvFramePing ∨
      st = .recvFrameRstStream ∨ st = .recvFrameGoaway ∧ h2.off.hdr.length = 0)
    (hc : Core h2') (hclosed : h2'.store.NoClosed) (hcur : h2'.cur = h2.cur)
    (hpad : h2'.off.padlen = h2.off.padlen) : Exited { h2' with off.state := st } q := by
  have hf := h.inFrame (by grind) (by grind) (by grind)
  have howed := hf.owed
  have hd := hf.detail
  have hq := h.queue
  unfold Detail at hd
  unfold Queue at hq
  have key : h2.cur.pieces = [] ∧ h2.cur.isApp = false ∧ h2.cur.hdr.type ≠ .settings ∧
      h2.off.padlen = 0 ∧ h2.off.hdr.length = 0 := by
    rw [hst] at hd hq
    rcases hcase with rfl | rfl | rfl | rfl | ⟨rfl, hlen⟩ <;>
      simp_all [isApp]
  obtain ⟨hp, happ, htype, hpad', hlen⟩ := key
  apply Core.exit
  · exact { hc with }
  · exact hclosed
  · exact hcur ▸ hp
  · exact hcur ▸ happ
  · exact fun hs => absurd (hcur ▸ hs) htype
  · rcases hcase with rfl | rfl | rfl | rfl | ⟨rfl, -⟩ <;> rfl
  · rcases hcase with rfl | rfl | rfl | rfl | ⟨rfl, -⟩ <;> intro h <;> cases h
  · exact hpad.trans hpad'
  · rw [hcur]
    omega

/-- Within the fields of a frame with application data: `n` bytes of them have been
read, and the counters are set for what follows. -/
structure Fields (h2 : TfwH2Ctx) (q : List UInt8) (n : Nat) : Prop extends Core h2 where
  closed : h2.store.NoClosed
  isApp : h2.cur.isApp = true
  read : h2.cur.payload.length = n
  owed : n + h2.off.hdr.length + h2.off.padlen = h2.cur.hdr.length
  plen : h2.off.plen + n = h2.cur.hdr.length
  padlen : h2.off.padlen = h2.cur.padLen
  dataOff : h2.off.dataOff = frameHeaderSize + n
  queue : h2.off.skbHead.flatten ++ q = h2.cur.bytes
  pieces : h2.cur.pieces = []
  opens : CurDetail.Opens h2

/-- The state in which the application data of a frame is read. -/
def AppState (st : TfwFrameState) (type : TfwFrameType) : Prop :=
  st = .recvHeader ∧ type = .headers ∨ st = .recvCont ∧ type = .continuation ∨
    st = .recvData ∧ type = .data

lemma Fields.bytes_length (h : Fields h2 q n) : h2.cur.bytes.length = frameHeaderSize + n := by
  rw [bytes, length_append, h.head, h.read]

lemma FrameRec.padded_of_padLen (h : f.padLen ≠ 0) : f.padded = true := by
  unfold padLen at h
  by_contra hp
  rw [if_neg hp] at h
  exact h rfl

lemma FrameRec.isApp_not_settings (h : f.isApp = true) :
    f.hdr.type ≠ .settings := by
  intro hs
  simp only [isApp, hs] at h
  cases h

lemma Fields.exit (h : Fields h2 q n) (hn : n = h2.cur.fieldsLen ∨ n = h2.cur.padBytes)
    (hlen : h2.off.hdr.length = 0) (hst : st.app = false) (hst' : st ≠ .recvFrameSettings) :
    Exited { h2 with off.state := st, off.toRead := 0 } q := by
  have howed := h.owed
  have hpad := h.padlen
  have hle := padBytes_le_fieldsLen h2.cur
  refine ⟨?_, h.closed, ?_, ⟨fun h => absurd h hst', ?_⟩, fun h => absurd h hst', ?_, fun _ => ?_⟩
  · exact { h with }
  · show h2.cur.payload.length + h2.off.padlen = h2.cur.hdr.length
    rw [h.read]
    omega
  · exact fun hs => absurd hs.1 (isApp_not_settings h.isApp)
  · intro happ
    rw [show st.app = true from happ] at hst
    cases hst
  · refine ⟨.of_empty h.pieces ?_, ?_⟩
    · show h2.cur.hdr.length - h2.cur.fieldsLen - h2.cur.padLen = 0
      omega
    · show h2.off.padlen = 0 ∨ h2.cur.PadOnly
      by_cases hz : h2.off.padlen = 0
      · exact .inl hz
      have hp := padded_of_padLen (hpad ▸ hz)
      right
      rcases hn with hn | hn
      · exact .inl ⟨hp, by omega, by omega⟩
      · exact .inr ⟨hp, by omega, by omega⟩

lemma Fields.appQueue (h : Fields h2 q h2.cur.fieldsLen) : Queue.App h2.off h2.cur q := by
  have hlen := h.bytes_length
  have hskb := congrArg length h.queue
  rw [length_append] at hskb
  refine ⟨?_, ?_, ?_, ?_⟩
  · rw [h.dataOff]
    omega
  · rw [h.dataOff, h.queue]
    omega
  · rw [h.queue, h.dataOff, drop_of_length_le (by omega), append_nil,
      drop_of_length_le (Nat.le_of_eq h.read), handed, h.pieces]
    rfl
  · rw [h.pieces]
    nofun

lemma Fields.toApp (h : Fields h2 q n) (hn : h2.cur.fieldsLen = n)
    (hdep : h2.off.priority.streamId = h2.cur.dep) (hnext : AppState next h2.cur.hdr.type)
    (hst : st.app = false) (hst' : st ≠ .recvFrameSettings) :
    Goes q (fsmNext (h2.setToReadVerify next) st) := by
  subst hn
  by_cases hlen : h2.off.hdr.length = 0
  · have hoff : h2.off.setToReadVerify next =
        { h2.off with toRead := 0, state := .ignoreFrameData } := by
      unfold FrameCtx.setToReadVerify
      rw [if_neg (not_not_intro hlen)]
    simp only [setToReadVerify, hoff, fsmNext, ne_eq, not_true_eq_false, if_false]
    exact h.exit (.inl rfl) hlen hst hst'
  have hoff : h2.off.setToReadVerify next = { h2.off.setToRead with state := next } := by
    unfold FrameCtx.setToReadVerify
    rw [if_pos hlen]
  have htr : h2.off.setToRead.toRead ≠ 0 := hlen
  simp only [setToReadVerify, hoff, fsmNext, htr, ne_eq, not_false_eq_true, if_true]
  refine ⟨Core.good ?_ ?_ ?_ ?_ ?_ ?_ ?_, ?_⟩
  · exact { h with }
  · exact Nat.zero_le _
  · show h2.cur.payload.length + (h2.off.hdr.length - 0) + 0 + h2.off.padlen = h2.cur.hdr.length
    have := h.owed
    rw [h.read]
    omega
  · have happ : Detail.App { h2.off.setToRead with state := next, rlen := 0 } h2.cur :=
      ⟨h.padlen, rfl, h.read, hdep, h.plen⟩
    rcases hnext with ⟨rfl, ht⟩ | ⟨rfl, ht⟩ | ⟨rfl, ht⟩
    · exact ⟨ht, happ⟩
    · exact ⟨ht, happ⟩
    · exact ⟨ht, happ⟩
  · have hq := h.appQueue
    rcases hnext with ⟨rfl, -⟩ | ⟨rfl, -⟩ | ⟨rfl, -⟩
    · exact hq
    · exact hq
    · exact hq
  · rcases hnext with ⟨rfl, -⟩ | ⟨rfl, -⟩ | ⟨rfl, -⟩
    · exact h.opens
    · exact h.opens
    · exact h.opens
  · exact h.closed.no
  · have hpos : 0 < h2.off.hdr.length := Nat.pos_of_ne_zero hlen
    rcases hnext with ⟨rfl, -⟩ | ⟨rfl, -⟩ | ⟨rfl, -⟩
    · exact hpos
    · exact hpos
    · exact hpos

lemma Fields.toPri (h : Fields h2 q n) (hn : h2.cur.padBytes = n) (hpri : h2.cur.withPri = true)
    (st : TfwFrameState) :
    Post H2Stop.IsDrop (fun h2' => Goes q (fsmNext h2' st)) h2.tfwH2RecvPriority := by
  subst hn
  unfold tfwH2RecvPriority
  by_cases hlen : h2.off.hdr.length < framePrioritySize
  · rw [if_pos hlen]
    trivial
  rw [if_neg hlen]
  have h5 : framePrioritySize = 5 := rfl
  have howed := h.owed
  have hplen := h.plen
  refine ⟨Core.good ?_ ?_ ?_ ?_ ?_ ?_ ?_, Nat.succ_pos _⟩
  · exact { h with }
  · exact Nat.zero_le _
  · show h2.cur.payload.length + (framePrioritySize - 0) +
      (h2.off.hdr.length - framePrioritySize) + h2.off.padlen = h2.cur.hdr.length
    rw [h.read]
    omega
  · refine ⟨hpri, rfl, h.padlen, h.read, ?_, ?_⟩
    · show h2.off.rbuf.take 0 = h2.cur.payload.drop h2.cur.padBytes
      rw [take_zero, drop_of_length_le (Nat.le_of_eq h.read)]
    · show h2.off.plen - framePrioritySize + h2.cur.fieldsLen = h2.cur.hdr.length
      rw [fieldsLen_of_withPri hpri]
      omega
  · exact ⟨h.queue, h.dataOff, h.pieces⟩
  · exact h.opens
  · exact h.closed.no

lemma Fields.toPad (h : Fields h2 q 0) (hp : h2.cur.padded = true)
    (hprio : h2.off.priority.streamId = 0) (st : TfwFrameState) :
    Post H2Stop.IsDrop (fun h2' => Goes q (fsmNext h2' st)) h2.tfwH2RecvPadded := by
  unfold tfwH2RecvPadded
  by_cases hlen : h2.off.hdr.length < 1
  · rw [if_pos hlen]
    trivial
  rw [if_neg hlen]
  have howed := h.owed
  have hplen := h.plen
  have hnil := List.length_eq_zero_iff.mp h.read
  have hpad : h2.off.padlen = 0 := by
    rw [h.padlen, padLen, hnil, if_pos hp]
    rfl
  refine ⟨Core.good ?_ ?_ ?_ ?_ ?_ ?_ ?_, Nat.succ_pos _⟩
  · exact { h with }
  · exact Nat.zero_le _
  · show h2.cur.payload.length + (1 - 0) + (h2.off.hdr.length - 1) + h2.off.padlen =
      h2.cur.hdr.length
    rw [h.read]
    omega
  · refine ⟨hp, rfl, hpad, hprio, h.read, ?_, ?_⟩
    · show h2.off.rbuf.take 0 = h2.cur.payload
      rw [take_zero, hnil]
    · show h2.off.plen - 1 + 1 = h2.cur.hdr.length
      omega
  · exact ⟨h.queue, h.dataOff, h.pieces⟩
  · exact h.opens
  · exact h.closed.no

lemma FrameRec.padded_type (h : f.padded = true) :
    f.hdr.type = .data ∨ f.hdr.type = .headers := by
  simp only [padded, Bool.and_eq_true, Bool.or_eq_true, beq_iff_eq] at h
  exact h.1

lemma FrameRec.dep_of_not_withPri (h : f.withPri = false) : f.dep = 0 := by
  rw [dep, h]
  rfl

lemma FrameRec.fieldsLen_of_not_withPri (h : f.withPri = false) :
    f.fieldsLen = f.padBytes := by
  rw [fieldsLen, h]
  rfl

lemma Fields.toAppSet (h : Fields h2 q n) (hn : h2.cur.fieldsLen = n)
    (hdep : h2.off.priority.streamId = h2.cur.dep) (hnext : AppState next h2.cur.hdr.type)
    (hlen : h2.off.hdr.length ≠ 0) (hst : st.app = false) (hst' : st ≠ .recvFrameSettings) :
    Goes q (fsmNext (setToRead { h2 with off.state := next }) st) := by
  have heq : setToRead { h2 with off.state := next } = h2.setToReadVerify next := by
    unfold setToRead setToReadVerify FrameCtx.setToReadVerify
    rw [if_pos hlen]
    rfl
  rw [heq]
  exact h.toApp hn hdep hnext hst hst'

lemma GoodAt.padFields (h : GoodAt h2 q) (hst : h2.off.state = .recvFramePadded)
    (hdone : h2.off.rlen = h2.off.toRead) (hle : (h2.off.rbuf.getD 0 0).toNat ≤ h2.off.hdr.length) :
    Fields { h2 with
      off.dataOff := h2.off.dataOff + 1
      off.padlen := (h2.off.rbuf.getD 0 0).toNat
      off.hdr.length := h2.off.hdr.length - (h2.off.rbuf.getD 0 0).toNat } q 1 := by
  have hf := h.inFrame (by rw [hst]; nofun) (by rw [hst]; nofun) (by rw [hst]; nofun)
  have howed := hf.owed
  have hd := hf.detail
  have hq := h.queue
  have hcurs := h.curs
  unfold Detail at hd
  unfold Queue at hq
  unfold CurDetail at hcurs
  rw [hst] at hd hq hcurs
  obtain ⟨hp, htr, hpad, -, hlen, hbuf, hplen⟩ := hd
  obtain ⟨hbytes, hoff, hpieces⟩ := hq
  have hc := h.core hf
  constructor
  · exact { hc with }
  · exact h.noClosed (by rw [hst]; nofun)
  · exact isApp_of_padded hp
  · show h2.cur.payload.length = 1
    omega
  · show 1 + (h2.off.hdr.length - (h2.off.rbuf.getD 0 0).toNat) + (h2.off.rbuf.getD 0 0).toNat =
      h2.cur.hdr.length
    omega
  · exact hplen
  · rw [padLen, if_pos hp, ← hbuf, hdone, htr]
    cases h2.off.rbuf with
    | nil => rfl
    | cons b rbuf => rfl
  · exact congrArg (· + 1) hoff
  · exact hbytes
  · exact hpieces
  · exact hcurs

lemma Fields.padRest (h : Fields h2 q 1) (hp : h2.cur.padded = true)
    (hprio : h2.off.priority.streamId = 0) :
    Post H2Stop.IsDrop (fun h2' => Goes q (fsmNext h2' .recvFramePadded))
      (if h2.off.hdr.length = 0 then
        .ok { h2 with off.state := .ignoreFrameData, off.toRead := 0 }
      else
        match h2.off.hdr.type with
        | .data => .ok (setToRead { h2 with off.state := .recvData })
        | .headers =>
          if hasFlag h2.off.hdr.flags .priority then h2.tfwH2RecvPriority
          else .ok (setToRead { h2 with off.state := .recvHeader })
        | _ => .error .bug) := by
  have hone := padBytes_of_padded hp
  by_cases hlen : h2.off.hdr.length = 0
  · rw [if_pos hlen]
    exact h.exit (.inr hone.symm) hlen rfl (by decide)
  rw [if_neg hlen]
  have hplain : h2.cur.withPri = false → h2.cur.fieldsLen = 1 :=
    fun hpri => (fieldsLen_of_not_withPri hpri).trans hone
  have hdep : h2.cur.withPri = false → h2.off.priority.streamId = h2.cur.dep :=
    fun hpri => hprio.trans (dep_of_not_withPri hpri).symm
  rcases padded_type hp with ht | ht
  · rw [h.type, ht]
    have hpri : h2.cur.withPri = false := by
      rw [withPri, ht]
      rfl
    exact h.toAppSet (hplain hpri) (hdep hpri) (.inr (.inr ⟨rfl, ht⟩)) hlen rfl (by decide)
  · rw [h.type, ht, h.flags]
    by_cases hflag : hasFlag h2.cur.hdr.flags .priority = true
    · simp only [if_pos hflag]
      apply h.toPri hone
      rw [withPri, ht, hflag]
      rfl
    · simp only [if_neg hflag]
      have hpri : h2.cur.withPri = false := by
        rw [withPri, Bool.eq_false_iff.mpr hflag, Bool.and_false]
      exact h.toAppSet (hplain hpri) (hdep hpri) (.inl ⟨rfl, ht⟩) hlen rfl (by decide)

lemma GoodAt.padDone (h : GoodAt h2 q) (hst : h2.off.state = .recvFramePadded)
    (hdone : h2.off.rlen = h2.off.toRead) :
    Post H2Stop.IsDrop (fun h2' => Goes q (fsmNext h2' .recvFramePadded))
      h2.tfwH2FramePadProcess := by
  unfold tfwH2FramePadProcess
  by_cases hle : h2.off.hdr.length < (h2.off.rbuf.getD 0 0).toNat
  · rw [if_pos hle]
    trivial
  rw [if_neg hle]
  have hf := h.inFrame (by rw [hst]; nofun) (by rw [hst]; nofun) (by rw [hst]; nofun)
  have hd := hf.detail
  unfold Detail at hd
  rw [hst] at hd
  obtain ⟨hp, -, -, hprio, -⟩ := hd
  exact Fields.padRest (h.padFields hst hdone (by omega)) hp hprio

lemma GoodAt.priDone (h : GoodAt h2 q) (hst : h2.off.state = .recvHeaderPri)
    (hdone : h2.off.rlen = h2.off.toRead) :
    Post H2Stop.IsDrop (fun h2' => Goes q (fsmNext h2' .recvHeaderPri))
      h2.tfwH2HeadersPriProcess := by
  have hf := h.inFrame (by rw [hst]; decide) (by rw [hst]; decide) (by rw [hst]; decide)
  have howed := hf.owed
  have hd := hf.detail
  have hq := h.queue
  have hcurs := h.curs
  unfold Detail at hd
  unfold Queue at hq
  unfold CurDetail at hcurs
  rw [hst] at hd hq hcurs
  obtain ⟨hpri, htr, hpad, hlen, hbuf, hplen⟩ := hd
  obtain ⟨hbytes, hoff, hpieces⟩ := hq
  have hc := h.core hf
  have hfields := fieldsLen_of_withPri hpri
  have hpri' := hpri
  simp only [withPri, Bool.and_eq_true, beq_iff_eq] at hpri'
  unfold tfwH2HeadersPriProcess
  rw [hf.flags, hpri'.2]
  apply Fields.toApp
  · constructor
    · exact { hc with }
    · exact h.noClosed (by rw [hst]; decide)
    · exact isApp_of_withPri hpri
    · show h2.cur.payload.length = h2.cur.fieldsLen
      omega
    · show h2.cur.fieldsLen + h2.off.hdr.length + h2.off.padlen = h2.cur.hdr.length
      omega
    · exact hplen
    · exact hpad
    · rw [hoff, hfields, Nat.add_assoc]
      rfl
    · exact hbytes
    · exact hpieces
    · exact hcurs
  · rfl
  · rw [dep, if_pos hpri]
    simp only [tfwH2UnpackPriority]
    rw [← hbuf, hdone, htr, take_take]
    rfl
  · exact .inl ⟨rfl, hpri'.1⟩
  · rfl
  · decide

end Tempesta.Http2
