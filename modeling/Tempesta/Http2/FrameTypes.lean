import Tempesta.Http2.FrameEnd

/-!
The header of a frame decides how it is read. Together with the other states this
says what every state of the frame machine does when its data has been read.
-/

namespace Tempesta.Http2

open PostLib TfwH2Ctx FrameRec H2Store Post
open Hpack (subU32)

variable {st next : TfwFrameState} {f : FrameRec} {store : H2Store} {q : List UInt8} {id : Nat}
  {h2 : TfwH2Ctx} {stream : TfwStream}

/-- The header of the frame has been unpacked. -/
structure Typed (h2 : TfwH2Ctx) : Prop extends Core h2 where
  payload : h2.cur.payload = []
  pieces : h2.cur.pieces = []
  length : h2.off.hdr.length = h2.cur.hdr.length
  padlen : h2.off.padlen = 0
  toRead : h2.off.toRead = 0
  priority : h2.off.priority.streamId = 0

lemma GoodAt.typed (h : GoodAt h2 q) (ha : AtHeader h2.off h2.cur)
    (hdone : h2.off.rlen = frameHeaderSize) : Typed h2.unpackHeader := by
  have hc := ha.cleared
  unfold Cleared at hc
  have hhdr : tfwH2UnpackFrameHeader h2.off.rbuf = h2.cur.hdr := by
    rw [ha.rbuf]
    rfl
  have hcur : h2.off.curStream = none := by rw [hc]; rfl
  have hhead : h2.cur.head.length = frameHeaderSize := ha.rlen ▸ hdone
  constructor
  · constructor
    · exact h.lset
    · exact h.inv
    · exact h.last
    · intro id hid
      rw [show h2.unpackHeader.off.curStream = none from hcur] at hid
      cases hid
    · exact hhead
    · exact congrArg TfwFrameHdr.type hhdr
    · exact congrArg TfwFrameHdr.flags hhdr
    · exact congrArg TfwFrameHdr.streamId hhdr
  · exact ha.payload
  · exact ha.pieces
  · exact congrArg TfwFrameHdr.length hhdr
  · show h2.off.padlen = 0
    rw [hc]
    rfl
  · show h2.off.toRead = 0
    rw [hc]
    rfl
  · show h2.off.priority.streamId = 0
    rw [hc]
    rfl

lemma Typed.exit (h : Typed h2) (hopen : h2.store.NoClosed) (happ : h2.cur.isApp = false)
    (hlen : h2.off.hdr.length = 0) (m n : Nat) (hst : st.app = false)
    (hst' : st ≠ .recvFrameSettings) :
    Exited { h2 with off.toRead := m, off.hdr.length := n, off.state := st } q := by
  have hlen' := h.length ▸ hlen
  apply Core.exit
  · exact { h.toCore with }
  · exact hopen
  · exact h.pieces
  · exact happ
  · exact fun _ => hlen'
  · exact hst
  · exact hst'
  · exact h.padlen
  · show h2.cur.payload.length = h2.cur.hdr.length
    rw [h.payload, hlen']
    rfl

lemma GoodAt.firstSettingsDone (h : GoodAt h2 q) (hst : h2.off.state = .recvFirstSettings)
    (hdone : h2.off.rlen = frameHeaderSize) :
    Post H2Stop.IsDrop
      (fun h2' => Goes q (if h2'.off.toRead ≠ 0 then h2'.fsmMove .recvFrameSettings
        else h2'.fsmExit .recvFirstSettings))
      h2.tfwH2FirstSettingsVerify := by
  have ha : AtHeader h2.off h2.cur := by
    have hp := h.phase
    unfold Phase at hp
    rw [hst] at hp
    exact hp
  have ht := h.typed ha hdone
  have hopen : h2.unpackHeader.store.NoClosed := h.noClosed (by rw [hst]; nofun)
  unfold tfwH2FirstSettingsVerify
  have htr : h2.off.toRead = 0 := ht.toRead
  rw [if_neg (not_not_intro htr)]
  simp only
  generalize h2.unpackHeader = h2 at ht hopen
  by_cases hmod : h2.off.hdr.length % frameSettingsEntrySize ≠ 0
  · rw [if_pos hmod]
    trivial
  rw [if_neg hmod]
  by_cases hkind : h2.off.hdr.type ≠ .settings ∨ hasFlag h2.off.hdr.flags .ack = true ∨
      h2.off.hdr.streamId ≠ 0
  · rw [if_pos hkind]
    trivial
  rw [if_neg hkind]
  push Not at hkind hmod
  obtain ⟨hset, hack, -⟩ := hkind
  rw [ht.type] at hset
  rw [ht.flags] at hack
  show Goes q (if h2.nextSettings.off.toRead ≠ 0 then _ else _)
  by_cases hlen : h2.off.hdr.length = 0
  · have hzero : h2.nextSettings.off.toRead = 0 := if_neg (not_not_intro hlen)
    rw [if_neg (not_not_intro hzero)]
    have hnext : h2.nextSettings = { h2 with
        off.toRead := 0, off.hdr.length := h2.off.hdr.length - 0 } := by
      unfold nextSettings
      rw [if_neg (not_not_intro hlen)]
    rw [hnext]
    refine ht.exit hopen ?_ hlen _ _ rfl nofun
    rw [isApp, hset]
    rfl
  · have hsix : h2.nextSettings.off.toRead = 6 := if_pos hlen
    rw [if_pos (by rw [hsix]; decide)]
    refine ⟨?_, ?_⟩
    · refine ht.toCore.settingsNext hopen ht.pieces hset (Bool.eq_false_iff.mpr hack) ht.padlen hmod
        hlen ?_
      rw [ht.payload, ht.length]
      exact Nat.zero_add _
    · show 0 < h2.nextSettings.off.toRead
      rw [hsix]
      decide

/-- The frame is dropped, or the machine goes on. -/
abbrev Handled (q : List UInt8) (x : Except H2Stop TfwH2Ctx) : Prop :=
  Post H2Stop.IsDrop (fun h2' => Goes q (fsmNext h2' .recvFrameHeader)) x

lemma FrameRec.padLen_nil (h : f.payload = []) : f.padLen = 0 := by
  rw [padLen, h]
  exact ite_self _

lemma Typed.fields (h : Typed h2) (hopen : h2.store.NoClosed)
    (hq : h2.off.skbHead.flatten ++ q = h2.cur.head) (happ : h2.cur.isApp = true)
    (hopens : CurDetail.Opens h2) : Fields h2.startApp q 0 := by
  constructor
  · exact { h.toCore with }
  · exact hopen
  · exact happ
  · exact List.length_eq_zero_iff.mpr h.payload
  · show 0 + h2.off.hdr.length + h2.off.padlen = h2.cur.hdr.length
    have := h.length
    have := h.padlen
    omega
  · exact h.length
  · exact h.padlen.trans (padLen_nil h.payload).symm
  · rfl
  · show h2.off.skbHead.flatten ++ q = h2.cur.head ++ h2.cur.payload
    rw [hq, h.payload, List.append_nil]
  · exact h.pieces
  · exact hopens

lemma Typed.headersStart (h : Typed h2) (hopen : h2.store.NoClosed)
    (hq : h2.off.skbHead.flatten ++ q = h2.cur.head) (htype : h2.cur.hdr.type = .headers)
    (hopens : CurDetail.Opens h2) : Handled q h2.headersStart := by
  have happ : h2.cur.isApp = true := by
    rw [isApp, htype]
    rfl
  have hfields := h.fields hopen hq happ hopens
  have hflags := h.flags
  unfold TfwH2Ctx.headersStart
  simp only
  by_cases hpad : hasFlag h2.off.hdr.flags .padded = true
  · rw [if_pos (show hasFlag h2.startApp.off.hdr.flags .padded = true from hpad)]
    refine hfields.toPad ?_ h.priority _
    show h2.cur.padded = true
    rw [padded, htype, ← hflags, hpad]
    rfl
  rw [if_neg (show ¬hasFlag h2.startApp.off.hdr.flags .padded = true from hpad)]
  have hbytes : h2.cur.padBytes = 0 := by
    rw [padBytes, padded, ← hflags, Bool.eq_false_iff.mpr hpad, Bool.and_false]
    rfl
  by_cases hpri : hasFlag h2.off.hdr.flags .priority = true
  · rw [if_pos (show hasFlag h2.startApp.off.hdr.flags .priority = true from hpri)]
    refine hfields.toPri hbytes ?_ _
    show h2.cur.withPri = true
    rw [withPri, htype, ← hflags, hpri]
    rfl
  rw [if_neg (show ¬hasFlag h2.startApp.off.hdr.flags .priority = true from hpri)]
  have hnp : h2.cur.withPri = false := by
    rw [withPri, ← hflags, Bool.eq_false_iff.mpr hpri, Bool.and_false]
  refine hfields.toApp ?_ ?_ (.inl ⟨rfl, htype⟩) rfl (by decide)
  · exact (fieldsLen_of_not_withPri hnp).trans hbytes
  · exact h.priority.trans (dep_of_not_withPri hnp).symm

lemma Typed.service (h : Typed h2) (hlen : h2.off.hdr.length ≠ 0)
    (hnext : frameToRead { h2.off.setToRead with state := next } = h2.off.hdr.length)
    (hd : Detail { h2.off.setToRead with state := next, rlen := 0 } h2.cur)
    (hq : Queue { h2.off.setToRead with state := next, rlen := 0 } h2.cur q)
    (hcurs : CurDetail { h2 with off.state := next })
    (hclosed : ∀ t ∈ h2.store.streams, t.state = .closed → next = .recvFrameRstStream ∧
      h2.off.curStream = some t.id) :
    Goes q (fsmNext (serviceStart next (h2, false)) .recvFrameHeader) := by
  have hgo : fsmNext (serviceStart next (h2, false)) .recvFrameHeader =
      ({ h2.setToRead with off.state := next }, true) := if_pos hlen
  rw [hgo]
  refine ⟨Core.good ?_ (Nat.zero_le _) ?_ hd hq ?_ hclosed, ?_⟩
  · exact { h.toCore with }
  · show h2.cur.payload.length + (h2.off.hdr.length - 0) + 0 + h2.off.padlen = h2.cur.hdr.length
    rw [h.payload, h.padlen, h.length]
    simp
  · exact hcurs
  · show 0 < frameToRead { h2.off.setToRead with state := next }
    omega

lemma Typed.ignored (h : Typed h2) (hopen : h2.store.NoClosed) (happ : h2.cur.isApp = false)
    (htype : h2.cur.hdr.type ≠ .settings) (hlen : h2.off.hdr.length ≠ 0) :
    Goes q (fsmNext { h2.setToRead with off.state := .ignoreFrameData } .recvFrameHeader) := by
  have hgo : fsmNext { h2.setToRead with off.state := .ignoreFrameData } .recvFrameHeader =
      ({ h2.setToRead with off.state := .ignoreFrameData }, true) := if_pos hlen
  rw [hgo]
  refine ⟨h.toCore.ignoreRest hopen h.pieces happ htype h.padlen ?_, Nat.pos_of_ne_zero hlen⟩
  rw [h.payload, h.length]
  exact Nat.zero_add _

/-- A service frame on a stream: the state machine of the stream may leave the frame
to be ignored. -/
theorem Typed.serviceRecv (h : Typed h2) (hopen : h2.store.NoClosed)
    (hcur : h2.off.curStream = some id)
    (htype : h2.cur.hdr.type ∈ [.priority, .windowUpdate, .rstStream])
    (hlen : h2.off.hdr.length ≠ 0)
    (hgo : ∀ state, Typed { h2 with store := h2.store.setState id state } →
      (state = .closed → h2.off.hdr.type = .rstStream) →
      Goes q (fsmNext (serviceStart next ({ h2 with store := h2.store.setState id state }, false))
      .recvFrameHeader)) :
    Handled q (serviceStart next <$> h2.streamRecvProcess) := by
  have hother : h2.cur.isApp = false ∧ h2.cur.hdr.type ≠ .settings := by
    unfold isApp
    revert htype
    generalize h2.cur.hdr.type = type
    cases type <;> decide
  obtain ⟨happ, hns⟩ := hother
  obtain ⟨t, r, ht, hfsm, hlive, hclosed, hproc⟩ := h.toCore.streamRecv hopen hcur
  have htyped : Typed { h2 with store := h2.store.setState id r.1 } :=
    { h with toCore := h.toCore.setState _ hlive }
  have hverify : h2.off.setToReadVerify .ignoreFrameData =
      { h2.off.setToRead with state := .ignoreFrameData } := if_pos hlen
  rw [hproc]
  obtain ⟨state, res⟩ := r
  cases res with
  | termConn err => trivial
  | ok => exact hgo state htyped fun hc => (hclosed hc).1
  | ignore =>
    have hnc : state ≠ .closed := fun hc => by cases (hclosed hc).2
    simp only [streamRecvResult, setToReadVerify, hverify]
    exact htyped.ignored (hopen.setState _ hnc) happ hns hlen
  | termStream err =>
    have hnc : state ≠ .closed := fun hc => by cases (hclosed hc).2
    simp only [streamRecvResult, setToReadVerify, hverify, tfwH2StreamClose]
    have hcur' : h2.off.setToRead.curStream = some id := hcur
    simp only [hcur']
    have hclose := (h.toCore.setState id hlive).streamClose h2.off.hdr.streamId err
    simp only [tfwH2StreamClose, hcur] at hclose
    exact Typed.ignored { h with toCore := hclose }
      (hopen.setState _ hnc).addClosed happ hns hlen

lemma Typed.withFound (h : Typed h2) :
    Typed { h2 with off.curStream :=
      (h2.store.tfwH2FindStream h2.off.hdr.streamId).map TfwStream.id } := by
  refine { h with mem := ?_ }
  intro id hid
  obtain ⟨t, ht, rfl⟩ := Option.map_eq_some_iff.mp hid
  obtain ⟨hmem, heq⟩ := mem_of_find ht
  exact ⟨heq, List.mem_map_of_mem hmem⟩

/-- What `tfw_h2_flow_control` writes. -/
theorem tfwH2FlowControl_eq (h2 : TfwH2Ctx) (stream : TfwStream) :
    ∃ wnd locWnd sent, h2.tfwH2FlowControl stream =
      { h2 with
        store := h2.store.update stream.id fun t => { t with locWnd := wnd }
        locWnd := locWnd
        sent := h2.sent ++ sent } ∧ SentFrame.settingsAck ∉ sent := by
  let strWnd := subU32 stream.locWnd h2.off.hdr.length
  let connWnd := subU32 h2.locWnd h2.off.hdr.length
  let str := SentFrame.wndUpdate stream.id (h2.lsettings.wndSz - strWnd)
  let conn := SentFrame.wndUpdate 0 (maxWndSize - connWnd)
  unfold tfwH2FlowControl
  simp only
  split_ifs
  · refine ⟨h2.lsettings.wndSz, maxWndSize, [str, conn], ?_, by simp [str, conn]⟩
    simp only [send, List.append_assoc, List.singleton_append, str, conn, strWnd, connWnd]
  · exact ⟨strWnd, maxWndSize, [conn], rfl, by simp [conn]⟩
  · exact ⟨h2.lsettings.wndSz, connWnd, [str], rfl, by simp [str]⟩
  · refine ⟨strWnd, connWnd, [], ?_, List.not_mem_nil⟩
    simp only [List.append_nil, strWnd, connWnd]

lemma Typed.windows (h : Typed h2) (id wnd locWnd : Nat) (sent : List SentFrame) :
    Typed { h2 with
      store := h2.store.update id fun t => { t with locWnd := wnd }
      locWnd := locWnd
      sent := h2.sent ++ sent } := by
  refine { h with inv := ?_, mem := ?_ }
  · refine h.inv.update ?_ ?_ fun t ht _ => h.inv.live t ht
    · exact fun _ => rfl
    · exact fun _ => rfl
  · intro i hi
    refine ⟨(h.mem i hi).1, ?_⟩
    rw [ids_update]
    · exact (h.mem i hi).2
    · exact fun _ => rfl

lemma opens_of_found (hfound : h2.cur.found = some stream.state)
    (hstate : ∀ t, store.tfwH2FindStream stream.id = some t → t.state = stream.state) :
    CurDetail.Opens { h2 with off.curStream := some stream.id, store := store } := by
  refine ⟨nofun, ?_⟩
  rintro id t hid ht hrem
  cases hid
  rw [← hrem, hstate t ht]
  exact hfound

section Types

variable (h : Typed h2) (hopen : h2.store.NoClosed)
  (hq : h2.off.skbHead.flatten ++ q = h2.cur.head)
  (hfound : h2.cur.found = (h2.store.tfwH2FindStream h2.off.hdr.streamId).map TfwStream.state)
include h hopen

include hq hfound in
lemma Typed.data (htype : h2.off.hdr.type = .data) :
    Handled q h2.tfwH2FrameTypeProcess := by
  have htype' := h.type ▸ htype
  unfold tfwH2FrameTypeProcess
  simp only [htype]
  refine check trivial fun _ => check trivial fun _ => ?_
  cases hf : h2.store.tfwH2FindStream h2.off.hdr.streamId with
  | none => trivial
  | some stream =>
    simp only
    obtain ⟨wnd, locWnd, sent, hflow, -⟩ := tfwH2FlowControl_eq
      { h2 with off.curStream := some stream.id } stream
    have hw := h.withFound
    rw [hf] at hw hfound
    have htyped := hw.windows stream.id wnd locWnd sent
    have hopen' : (h2.store.update stream.id fun t => { t with locWnd := wnd }).NoClosed :=
      hopen.update fun t ht _ => hopen t ht
    have happ : h2.cur.isApp = true := by
      rw [isApp, htype']
      rfl
    have hopens : CurDetail.Opens { h2 with
        off.curStream := some stream.id
        store := h2.store.update stream.id fun t => { t with locWnd := wnd } } := by
      apply opens_of_found hfound
      intro t ht
      obtain ⟨t', ht', heq⟩ := find_update_state ht (fun _ => rfl) fun _ => rfl
      rw [(mem_of_find hf).2, hf] at ht'
      cases ht'
      exact heq
    have hfields := htyped.fields hopen' hq happ hopens
    simp only [Option.map_some, hflow]
    have hpri : h2.cur.withPri = false := by
      rw [withPri, htype']
      rfl
    refine ite (fun hpad => ?_) fun hpad => ?_
    · refine hfields.toPad ?_ h.priority _
      show h2.cur.padded = true
      rw [padded, htype', ← h.flags, hpad]
      rfl
    · refine hfields.toApp ?_ ?_ (.inr (.inr ⟨rfl, htype'⟩)) rfl (by decide)
      · show h2.cur.fieldsLen = 0
        rw [fieldsLen_of_not_withPri hpri, padBytes, padded, ← h.flags,
          Bool.eq_false_iff.mpr hpad, Bool.and_false]
        rfl
      · exact h.priority.trans (dep_of_not_withPri hpri).symm

include hq hfound in
lemma Typed.continuation (htype : h2.off.hdr.type = .continuation) :
    Handled q h2.tfwH2FrameTypeProcess := by
  have htype' := h.type ▸ htype
  unfold tfwH2FrameTypeProcess
  simp only [htype]
  refine check trivial fun _ => check trivial fun _ => ?_
  cases hf : h2.store.tfwH2FindStream h2.off.hdr.streamId with
  | none => trivial
  | some stream =>
    have hw := h.withFound
    rw [hf] at hw hfound
    have happ : h2.cur.isApp = true := by
      rw [isApp, htype']
      rfl
    have hpri : h2.cur.withPri = false := by
      rw [withPri, htype']
      rfl
    have hopens : CurDetail.Opens { h2 with off.curStream := some stream.id } := by
      apply opens_of_found hfound
      intro t ht
      rw [(mem_of_find hf).2, hf] at ht
      cases ht
      rfl
    refine (hw.fields hopen hq happ hopens).toApp ?_ ?_ (.inr (.inl ⟨rfl, htype'⟩)) rfl (by decide)
    · show h2.cur.fieldsLen = 0
      rw [fieldsLen_of_not_withPri hpri, padBytes, padded, htype']
      rfl
    · exact h.priority.trans (dep_of_not_withPri hpri).symm

include hq hfound in
lemma Typed.headers (htype : h2.off.hdr.type = .headers) :
    Handled q h2.tfwH2FrameTypeProcess := by
  have htype' := h.type ▸ htype
  unfold tfwH2FrameTypeProcess
  simp only [htype]
  refine check trivial fun _ => check trivial fun _ => ?_
  have hw := h.withFound
  cases hf : h2.store.tfwH2FindStream h2.off.hdr.streamId with
  | some stream =>
    rw [hf] at hw hfound
    refine hw.headersStart hopen hq htype' (opens_of_found hfound ?_)
    intro t ht
    rw [(mem_of_find hf).2, hf] at ht
    cases ht
    rfl
  | none =>
    rw [hf] at hw hfound
    refine check trivial fun hid => ?_
    push Not at hid
    obtain ⟨store, hshrink, hinv, hnc, hlast⟩ := shrink_spec
      h2.lsettings.maxStreams
      (P := fun s => s.NoClosed ∧ s.lstreamId = h2.store.lstreamId)
      (fun s id s' hs hr => ⟨hs.1.remove hr, (remove_lstreamId hr).trans hs.2⟩)
      h.inv ⟨hopen, rfl⟩
    simp only [hshrink]
    have htyped : Typed { h2 with store := store, off.curStream := none } :=
      { h with inv := hinv, last := hlast ▸ h.last, mem := nofun }
    have hnum := hinv.streamsNum_lt (hlast ▸ h.last)
    have hmax : h2.lsettings.maxStreams = 0xffffffff := by rw [h.lset]; rfl
    refine ite (fun hfull => ?_) fun _ => ?_
    · rw [hmax] at hfull
      omega
    · refine htyped.headersStart hnc hq htype' ⟨fun _ => ⟨htype, ?_, hfound⟩, nofun⟩
      show store.lstreamId < h2.off.hdr.streamId
      omega

lemma Typed.priorityFrame (htype : h2.off.hdr.type = .priority) :
    Handled q h2.tfwH2FrameTypeProcess := by
  have htype' := h.type ▸ htype
  have hsvc : h2.cur.hdr.type ∈ [.priority, .windowUpdate, .rstStream] := by
    rw [htype']
    decide
  unfold tfwH2FrameTypeProcess
  simp only [htype]
  refine check trivial fun _ => check trivial fun _ => check trivial fun hlen => ?_
  have hlen : h2.off.hdr.length = 5 := not_not.mp hlen
  have hne : h2.off.hdr.length ≠ 0 := by omega
  have hw := h.withFound
  cases hf : h2.store.tfwH2FindStream h2.off.hdr.streamId with
  | none =>
    rw [hf] at hw
    exact hw.service hne rfl ⟨htype', hlen, h.padlen, rfl⟩ h.pieces trivial hopen.no
  | some stream =>
    rw [hf] at hw
    refine hw.serviceRecv hopen rfl hsvc hne fun state hstate hc => ?_
    have hnc : state ≠ .closed := fun h => by cases htype.symm.trans (hc h)
    exact hstate.service hne rfl ⟨htype', hlen, h.padlen, rfl⟩ h.pieces trivial
      (hopen.setState _ hnc).no

lemma Typed.windowUpdate (htype : h2.off.hdr.type = .windowUpdate) :
    Handled q h2.tfwH2FrameTypeProcess := by
  have htype' := h.type ▸ htype
  have hsvc : h2.cur.hdr.type ∈ [.priority, .windowUpdate, .rstStream] := by
    rw [htype']
    decide
  unfold tfwH2FrameTypeProcess
  simp only [htype]
  refine check trivial fun _ => check trivial fun hlen => check trivial fun _ => ?_
  have hlen : h2.off.hdr.length = 4 := not_not.mp hlen
  have hne : h2.off.hdr.length ≠ 0 := by omega
  refine ite (fun _ => ?_) fun _ => ?_
  · exact h.service hne rfl ⟨htype', hlen, h.padlen, rfl⟩ h.pieces trivial hopen.no
  have hw := h.withFound
  cases hf : h2.store.tfwH2FindStream h2.off.hdr.streamId with
  | none => trivial
  | some stream =>
    rw [hf] at hw
    refine hw.serviceRecv hopen rfl hsvc hne fun state hstate hc => ?_
    have hnc : state ≠ .closed := fun h => by cases htype.symm.trans (hc h)
    exact hstate.service hne rfl ⟨htype', hlen, h.padlen, rfl⟩ h.pieces trivial
      (hopen.setState _ hnc).no

lemma Typed.rstStream (htype : h2.off.hdr.type = .rstStream) :
    Handled q h2.tfwH2FrameTypeProcess := by
  have htype' := h.type ▸ htype
  have hsvc : h2.cur.hdr.type ∈ [.priority, .windowUpdate, .rstStream] := by
    rw [htype']
    decide
  unfold tfwH2FrameTypeProcess
  simp only [htype]
  refine check trivial fun _ => check trivial fun _ => check trivial fun hlen =>
    check trivial fun _ => ?_
  have hlen : h2.off.hdr.length = 4 := not_not.mp hlen
  have hne : h2.off.hdr.length ≠ 0 := by omega
  have hw := h.withFound
  cases hf : h2.store.tfwH2FindStream h2.off.hdr.streamId with
  | none => trivial
  | some stream =>
    rw [hf] at hw
    refine hw.serviceRecv hopen rfl hsvc hne fun state hstate _ => ?_
    refine hstate.service hne rfl ⟨htype', hlen, h.padlen, rfl⟩ h.pieces ?_ ?_
    · exact Option.some_ne_none _
    · intro t' ht' hclosed
      refine ⟨rfl, ?_⟩
      obtain ⟨t, ht, rfl⟩ := H2Store.mem_update.mp ht'
      by_cases hid : t.id = stream.id
      · rw [if_pos hid]
        exact congrArg some hid.symm
      · rw [if_neg hid] at hclosed
        exact absurd hclosed (hopen t ht)

lemma Typed.settings (htype : h2.off.hdr.type = .settings) :
    Handled q h2.tfwH2FrameTypeProcess := by
  have htype' := h.type ▸ htype
  unfold tfwH2FrameTypeProcess
  simp only [htype]
  refine check trivial fun _ => check trivial fun _ => check trivial fun hbad => ?_
  push Not at hbad
  obtain ⟨hmod, hack⟩ := hbad
  have htyped : ∀ mw, Typed { h2 with maxWindow := mw } := fun mw =>
    { h with }
  obtain ⟨mw, hmw⟩ : ∃ mw, (if hasFlag h2.off.hdr.flags .ack = true then
      { h2 with maxWindow := h2.lsettings.hdrTblSz } else h2) = { h2 with maxWindow := mw } := by
    by_cases hflag : hasFlag h2.off.hdr.flags .ack = true
    · exact ⟨_, if_pos hflag⟩
    · exact ⟨h2.maxWindow, if_neg hflag⟩
  rw [hmw]
  refine ite (fun hlen => ?_) fun hlen => ?_
  · have hflag : hasFlag h2.cur.hdr.flags .ack = false := by
      rw [← h.flags]
      by_contra htrue
      exact hlen (Nat.le_zero.mp (hack (Bool.not_eq_false _ ▸ htrue)))
    have hsix : (nextSettings { h2 with maxWindow := mw }).off.toRead = 6 := if_pos hlen
    show Goes q (if _ then _ else _)
    rw [if_pos (show (nextSettings { h2 with maxWindow := mw }).off.toRead ≠ 0 by
      rw [hsix]; decide)]
    refine ⟨?_, ?_⟩
    · refine (htyped mw).toCore.settingsNext hopen h.pieces htype' hflag h.padlen hmod hlen ?_
      show h2.cur.payload.length + h2.off.hdr.length = h2.cur.hdr.length
      rw [h.payload, h.length]
      exact Nat.zero_add _
    · show 0 < (nextSettings { h2 with maxWindow := mw }).off.toRead
      rw [hsix]
      decide
  · have hlen : h2.off.hdr.length = 0 := not_not.mp hlen
    refine (htyped mw).exit hopen ?_ hlen 0 h2.off.hdr.length rfl nofun
    show h2.cur.isApp = false
    rw [isApp, htype']
    rfl

lemma Typed.ping (htype : h2.off.hdr.type = .ping) :
    Handled q h2.tfwH2FrameTypeProcess := by
  have htype' := h.type ▸ htype
  unfold tfwH2FrameTypeProcess
  simp only [htype]
  refine check trivial fun _ => check trivial fun _ => check trivial fun hlen => ?_
  have hlen : h2.off.hdr.length = 8 := not_not.mp hlen
  exact h.service (by omega) rfl ⟨htype', hlen, h.padlen, rfl⟩ h.pieces trivial hopen.no

lemma Typed.goaway (htype : h2.off.hdr.type = .goaway) :
    Handled q h2.tfwH2FrameTypeProcess := by
  have htype' := h.type ▸ htype
  have hlength := h.length
  unfold tfwH2FrameTypeProcess
  simp only [htype]
  refine check trivial fun _ => check trivial fun _ => check trivial fun hlen => ?_
  refine ⟨Core.good ?_ (Nat.zero_le _) ?_ ⟨htype', rfl, h.padlen⟩ h.pieces trivial ?_,
    Nat.succ_pos _⟩
  · exact ⟨h.lset, h.inv, h.last, h.mem, h.head, htype'.symm, h.flags, h.streamId⟩
  · show h2.cur.payload.length + (8 - 0) + (h2.off.hdr.length - 8) + h2.off.padlen =
      h2.cur.hdr.length
    rw [h.payload, h.padlen, List.length_nil]
    omega
  · exact hopen.no

lemma Typed.extension (htype : h2.off.hdr.type = .undefined) :
    Handled q h2.tfwH2FrameTypeProcess := by
  have htype' := h.type ▸ htype
  have happ : h2.cur.isApp = false := by
    rw [isApp, htype']
    rfl
  unfold tfwH2FrameTypeProcess
  simp only [htype]
  refine check trivial fun _ => ?_
  by_cases hlen : h2.off.hdr.length = 0
  · have hexit : fsmNext (serviceStart .ignoreFrameData (h2, false)) .recvFrameHeader =
        fsmExit { h2.setToRead with off.state := .ignoreFrameData } .recvFrameHeader :=
      if_neg (not_not_intro hlen)
    show Goes q (fsmNext (serviceStart .ignoreFrameData (h2, false)) .recvFrameHeader)
    rw [hexit]
    exact h.exit hopen happ hlen h2.off.hdr.length 0 rfl (by decide)
  · refine h.ignored hopen happ ?_ hlen
    rw [htype']
    decide

include hq hfound in
lemma Typed.typeProcess :
    Handled q h2.tfwH2FrameTypeProcess := by
  cases htype : h2.off.hdr.type with
  | data => exact h.data hopen hq hfound htype
  | headers => exact h.headers hopen hq hfound htype
  | priority => exact h.priorityFrame hopen htype
  | rstStream => exact h.rstStream hopen htype
  | settings => exact h.settings hopen htype
  | pushPromise =>
    unfold tfwH2FrameTypeProcess
    simp only [htype]
    exact check trivial fun _ => trivial
  | ping => exact h.ping hopen htype
  | goaway => exact h.goaway hopen htype
  | windowUpdate => exact h.windowUpdate hopen htype
  | continuation => exact h.continuation hopen hq hfound htype
  | undefined => exact h.extension hopen htype

end Types

lemma GoodAt.startDone (h : GoodAt h2 q) (hst : h2.off.state = .recvCliStartSeq)
    (sent : List SentFrame) :
    GoodAt { h2 with sent := sent, off.state := .recvFirstSettings, off.rlen := 0 } q := by
  have ha : AtStart h2.off h2.cur := by
    have hp := h.phase
    unfold Phase at hp
    rw [hst] at hp
    exact hp
  obtain ⟨hclear, hbuf, -, hhead, hpay, hpieces⟩ := ha
  refine ⟨h.lset, h.inv, h.last, ?_, hpieces, h.mem, trivial, ?_⟩
  · refine ⟨?_, hbuf.trans hhead.symm, ?_, Nat.zero_le _, hpay, hpieces⟩
    · unfold Cleared at hclear ⊢
      rw [hclear]
    · exact (congrArg List.length hhead).symm
  · exact (h.noClosed (by rw [hst]; nofun)).no

lemma GoodAt.headerDone (h : GoodAt h2 q) (hst : h2.off.state = .recvFrameHeader)
    (hdone : h2.off.rlen = frameHeaderSize) : Handled q h2.unpackHeader.tfwH2FrameTypeProcess := by
  have ha : AtHeader h2.off h2.cur := by
    have hp := h.phase
    unfold Phase at hp
    rw [hst] at hp
    exact hp
  have hq := h.queue
  unfold Queue at hq
  rw [hst] at hq
  exact (h.typed ha hdone).typeProcess (h.noClosed (by rw [hst]; nofun)) hq rfl

lemma GoodAt.wndUpdateDone (h : GoodAt h2 q) (hst : h2.off.state = .recvFrameWndUpdate)
    (hdone : h2.off.rlen = h2.off.toRead) :
    Post H2Stop.IsDrop (fun h2' => Exited { h2' with off.state := .recvFrameWndUpdate } q)
      h2.tfwH2WndUpdateProcess := by
  obtain ⟨hc, -⟩ := h.service hst nofun nofun nofun
  unfold tfwH2WndUpdateProcess
  refine ite (fun _ => ?_) fun _ => ?_
  · exact h.exitService _ hdone hst (.inr (.inl rfl)) hc (h.noClosed (by rw [hst]; nofun)) rfl rfl
  · cases h2.off.curStream with
    | none => trivial
    | some id => exact h.resetDone hst (.inr rfl) hdone h2.off.priority

lemma GoodAt.priorityDone (h : GoodAt h2 q) (hst : h2.off.state = .recvFramePriority)
    (hdone : h2.off.rlen = h2.off.toRead) :
    Post H2Stop.IsDrop (fun h2' => Exited { h2' with off.state := .recvFramePriority } q)
      h2.tfwH2PriorityProcess := by
  obtain ⟨hc, -⟩ := h.service hst nofun nofun nofun
  unfold tfwH2PriorityProcess
  refine ite (fun _ => ?_) fun _ => h.resetDone hst (.inl rfl) hdone _
  refine h.exitService { h2 with off.priority := tfwH2UnpackPriority h2.off.rbuf } hdone hst
    (.inl rfl) ?_
    (h.noClosed (by rw [hst]; nofun)) rfl rfl
  exact { hc with }

lemma GoodAt.dataDone (h : GoodAt h2 q) (hst : h2.off.state = st)
    (hcase : st = .recvData ∨ st = .recvCont) (hdone : h2.off.rlen = h2.off.toRead)
    (hfresh : h2.off.dataOff < (h2.off.skbHead.flatten ++ q).length) :
    Post H2Stop.IsDrop (fun h2' => Exited { h2' with off.state := st } q)
      h2.tfwH2StreamStateProcess := by
  have happ : h2.off.state.app = true := by
    rw [hst]
    rcases hcase with rfl | rfl <;> rfl
  obtain ⟨hd, hc, hstate, -, hopens⟩ := h.appDone happ hdone hfresh
  rw [hst] at hstate
  cases hcur : h2.off.curStream with
  | some id =>
    exact hd.stateProcess id hc (h.noClosed (by grind)) hcur hstate fun t => hopens.2 id t hcur
  | none =>
    have htype := (hopens.1 hcur).1
    rw [hc.type] at htype
    rcases hstate with ⟨rfl, -⟩ | ⟨-, ht⟩ | ⟨-, ht⟩
    · rcases hcase with hst' | hst' <;> cases hst'
    · cases htype.symm.trans ht
    · cases htype.symm.trans ht

lemma GoodAt.headersDone (h : GoodAt h2 q) (hst : h2.off.state = .recvHeader)
    (hdone : h2.off.rlen = h2.off.toRead)
    (hfresh : h2.off.dataOff < (h2.off.skbHead.flatten ++ q).length) :
    Post H2Stop.IsDrop (fun h2' => Exited { h2' with off.state := .recvHeader } q)
      h2.tfwH2HeadersProcess := by
  obtain ⟨hd, hc, hstate, hdep, hopens⟩ := h.appDone (by rw [hst]; rfl) hdone hfresh
  rw [hst] at hstate
  rcases hstate with ⟨-, ht⟩ | ⟨hst', -⟩ | ⟨hst', -⟩
  · exact hd.headersProcess hc (h.noClosed (by rw [hst]; nofun)) hopens ht hdep
  · cases hst'
  · cases hst'

lemma GoodAt.frameDone (h : GoodAt h2 q) (hdone : h2.off.rlen = frameToRead h2.off)
    (hfresh : h2.off.state.app = true → h2.off.dataOff < (h2.off.skbHead.flatten ++ q).length) :
    Post H2Stop.IsDrop (Goes q) h2.frameDone := by
  unfold TfwH2Ctx.frameDone
  unfold frameToRead at hdone
  cases hst : h2.off.state <;> rw [hst] at hdone hfresh
  case recvCliStartSeq => exact ⟨h.startDone hst _, Nat.succ_pos _⟩
  case recvFirstSettings => exact (h.firstSettingsDone hst hdone).bind fun _ hgo => hgo
  case recvFrameHeader => exact (h.headerDone hst hdone).map fun _ hgo => hgo
  case recvFramePadded => exact (h.padDone hst hdone).map fun _ hgo => hgo
  case recvHeaderPri => exact (h.priDone hst hdone).map fun _ hgo => hgo
  case recvFramePriority => exact (h.priorityDone hst hdone).map fun _ hgo => hgo
  case recvFrameWndUpdate => exact (h.wndUpdateDone hst hdone).map fun _ hgo => hgo
  case recvFramePing =>
    by_cases hack : hasFlag h2.off.hdr.flags .ack = true
    · simp only [if_pos hack]
      exact h.pingDone hst hdone h2.sent
    · simp only [if_neg hack]
      exact h.pingDone hst hdone _
  case recvFrameRstStream => exact (h.rstDone hst hdone).map fun _ hgo => hgo
  case recvFrameSettings => exact (h.settingsDone hst hdone).bind fun _ hgo => hgo
  case recvFrameGoaway => exact h.goawayDone hst hdone
  case ignoreFrameData => exact h.ignoreDone hst hdone
  case recvData => exact (h.dataDone hst (.inl rfl) hdone (hfresh rfl)).map fun _ hgo => hgo
  case recvCont => exact (h.dataDone hst (.inr rfl) hdone (hfresh rfl)).map fun _ hgo => hgo
  case recvHeader => exact (h.headersDone hst hdone (hfresh rfl)).map fun _ hgo => hgo

end Tempesta.Http2
