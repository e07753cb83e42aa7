import Tempesta.Http2.FrameFields

/-!
The end of a frame: the state machine of its stream runs, or a service frame is
processed, and the frame ends or the rest of it is left to be ignored.
-/

namespace Tempesta.Http2

open List PostLib TfwH2Ctx FrameRec H2Store

variable {r : TfwStreamState × TfwStreamFsmRes} {s s' store : H2Store}
  {id toRead weight wnd id' : Nat} {type : TfwFrameType} {err : TfwH2Err}
  {f : TfwStream → TfwStream} {state : TfwStreamState} {flags : UInt8} {st : TfwFrameState}
  {q : List UInt8} {curStream : Option Nat} {h2 h2' : TfwH2Ctx}

lemma tfwH2StreamFsm_recv (type : TfwFrameType) (flags : UInt8)
    (hlive : state ≠ .locReserved ∧ state ≠ .remReserved) (hopen : state ≠ .closed) :
    ∃ r, tfwH2StreamFsm state type flags false = .ok r ∧
      (r.1 ≠ .locReserved ∧ r.1 ≠ .remReserved) ∧
      (r.1 = .closed → type = .rstStream ∧ r.2 = .ok) := by
  unfold tfwH2StreamFsm
  generalize hasFlag flags .endStream = endStream
  generalize hasFlag flags .endHeaders = endHeaders
  cases state with
  | locReserved => exact absurd rfl hlive.1
  | remReserved => exact absurd rfl hlive.2
  | closed => exact absurd rfl hopen
  | _ =>
    cases type <;> first
      | exact ⟨_, rfl, by decide, by decide⟩
      | cases endStream <;> cases endHeaders <;> exact ⟨_, rfl, by decide, by decide⟩

lemma tfwH2StreamFsm_termStream (h : tfwH2StreamFsm state type flags false = .ok r)
    (hres : r.2 = .termStream err) : state = .remHalfClosed := by
  unfold tfwH2StreamFsm at h
  cases state <;> grind

lemma tfwH2StreamFsm_ends (hdr : TfwFrameHdr)
    (h : tfwH2StreamFsm state hdr.type hdr.flags false = .ok r) (hends : hdr.ends = true)
    (hres : ∀ err, r.2 ≠ .termConn err) : r.1.receiving = false := by
  obtain ⟨length, streamId, type, flags⟩ := hdr
  have hcases : type = .data ∧ hasFlag flags .endStream = true ∨
      type = .headers ∧ hasFlag flags .endStream = true ∧ hasFlag flags .endHeaders = true := by
    unfold TfwFrameHdr.ends at hends
    cases type with
    | data => exact .inl ⟨rfl, hends⟩
    | headers => exact .inr ⟨rfl, (Bool.and_eq_true _ _).mp hends⟩
    | _ => cases hends
  unfold tfwH2StreamFsm at h
  rcases hcases with ⟨rfl, hf⟩ | ⟨rfl, hf, hf'⟩
  · simp only [hf] at h
    cases state <;> cases h <;> first | rfl | exact absurd rfl (hres _)
  · simp only [hf, hf'] at h
    cases state <;> cases h <;> first | rfl | exact absurd rfl (hres _)

lemma tfwH2StreamFsm_reset (hlive : state ≠ .locReserved ∧ state ≠ .remReserved)
    (hopen : state ≠ .closed) :
    ∃ r, tfwH2StreamFsm state .rstStream 0 true = .ok r ∧
      (r.1 ≠ .locReserved ∧ r.1 ≠ .remReserved) ∧ r.1 ≠ .closed ∧ r.1.receiving = false := by
  cases state <;> first | exact ⟨_, rfl, by decide, by decide, by decide⟩ | simp_all

namespace H2Store

lemma NoClosed.update (h : s.NoClosed) (hf : ∀ t ∈ s.streams, t.id = id → (f t).state ≠ .closed) :
    (s.update id f).NoClosed := by
  intro t' ht'
  obtain ⟨t, ht, rfl⟩ := mem_update.mp ht'
  by_cases hid : t.id = id
  · rw [if_pos hid]
    exact hf t ht hid
  · rw [if_neg hid]
    exact h t ht

lemma NoClosed.setState (h : s.NoClosed) (id : Nat) (hst : state ≠ .closed) :
    (s.setState id state).NoClosed :=
  h.update fun _ _ _ => hst

lemma addClosed_streams (s : H2Store) (id : Nat) :
    (s.tfwH2StreamAddClosed id).streams = s.streams := by
  unfold tfwH2StreamAddClosed
  by_cases h : id ∈ s.closed
  · rw [if_pos h]
  · rw [if_neg h]

lemma addClosed_lstreamId (s : H2Store) (id : Nat) :
    (s.tfwH2StreamAddClosed id).lstreamId = s.lstreamId := by
  unfold tfwH2StreamAddClosed
  by_cases h : id ∈ s.closed
  · rw [if_pos h]
  · rw [if_neg h]

lemma find_addClosed : (s.tfwH2StreamAddClosed id).tfwH2FindStream id' = s.tfwH2FindStream id' := by
  unfold tfwH2FindStream
  rw [addClosed_streams]

lemma NoClosed.addClosed (h : s.NoClosed) : (s.tfwH2StreamAddClosed id).NoClosed := by
  unfold NoClosed
  rw [addClosed_streams]
  exact h

lemma NoClosed.remove (h : s.NoClosed) (hr : s.remove id = .ok s') : s'.NoClosed :=
  fun t ht => h t ((mem_of_remove hr).mp ht).1

end H2Store

/-- The context after the state machine of the stream has accepted a frame. -/
def Recvd (h2 : TfwH2Ctx) (id : Nat) (r : TfwStreamState × TfwStreamFsmRes) : TfwH2Ctx :=
  let h2 := { h2 with store := h2.store.setState id r.1 }
  match r.2 with
  | .termStream err =>
    (h2.setToReadVerify .ignoreFrameData).tfwH2StreamClose h2.off.hdr.streamId err
  | .ignore => h2.setToReadVerify .ignoreFrameData
  | _ => h2

lemma Core.streamRecv (hc : Core h2) (hopen : h2.store.NoClosed)
    (hcur : h2.off.curStream = some id) :
    ∃ t r, h2.store.tfwH2FindStream id = some t ∧
      tfwH2StreamFsm t.state h2.off.hdr.type h2.off.hdr.flags false = .ok r ∧
      (r.1 ≠ .locReserved ∧ r.1 ≠ .remReserved) ∧
      (r.1 = .closed → h2.off.hdr.type = .rstStream ∧ r.2 = .ok) ∧
      h2.streamRecvProcess = h2.streamRecvResult id r := by
  obtain ⟨t, ht⟩ := exists_find (hc.mem id hcur).2
  obtain ⟨hmem, -⟩ := mem_of_find ht
  obtain ⟨r, hr, hlive, hclosed⟩ := tfwH2StreamFsm_recv h2.off.hdr.type h2.off.hdr.flags
    (hc.inv.live t hmem) (hopen t hmem)
  refine ⟨t, r, ht, hr, hlive, hclosed, ?_⟩
  simp only [streamRecvProcess, hcur, ht, hr]
  rfl

lemma Recvd.store_streams (r : TfwStreamState × TfwStreamFsmRes) :
    (Recvd h2 id r).store.streams = (h2.store.setState id r.1).streams := by
  unfold Recvd
  cases r.2 with
  | termStream err =>
    simp only [tfwH2StreamClose, setToReadVerify]
    cases (h2.off.setToReadVerify .ignoreFrameData).curStream with
    | none => rfl
    | some id' => exact addClosed_streams _ _
  | ok | termConn err | ignore => rfl

/-- Which fields `SET_TO_READ_VERIFY` writes. -/
theorem setToReadVerify_eq (o : FrameCtx) (next : TfwFrameState) :
    ∃ toRead state, o.setToReadVerify next =
      { o with hdr.length := 0, toRead := toRead, state := state } := by
  unfold FrameCtx.setToReadVerify
  by_cases h : o.hdr.length ≠ 0
  · rw [if_pos h]
    exact ⟨_, _, rfl⟩
  · rw [if_neg h]
    exact ⟨0, .ignoreFrameData, by rw [← not_not.mp h]⟩

lemma Core.setState (hc : Core h2) (id : Nat)
    (hlive : state ≠ .locReserved ∧ state ≠ .remReserved) :
    Core { h2 with store := h2.store.setState id state } := by
  refine ⟨hc.lset, hc.inv.setState id hlive, hc.last, ?_, hc.head, hc.type, hc.flags, hc.streamId⟩
  intro i hi
  refine ⟨(hc.mem i hi).1, ?_⟩
  show i ∈ (h2.store.setState id state).ids
  rw [ids_setState]
  exact (hc.mem i hi).2

lemma Core.setToReadVerify (hc : Core h2) (next : TfwFrameState) :
    Core (h2.setToReadVerify next) := by
  obtain ⟨toRead, state, hoff⟩ := setToReadVerify_eq h2.off next
  unfold TfwH2Ctx.setToReadVerify
  rw [hoff]
  exact { hc with }

lemma Core.streamClose (hc : Core h2) (sid : Nat) (err : TfwH2Err) :
    Core (h2.tfwH2StreamClose sid err) := by
  unfold tfwH2StreamClose
  cases hcur : h2.off.curStream with
  | none => exact { hc with }
  | some id =>
    refine ⟨hc.lset, hc.inv.addClosed (hc.mem id hcur).2, ?_, nofun, hc.head, hc.type, hc.flags,
      hc.streamId⟩
    show (h2.store.tfwH2StreamAddClosed id).lstreamId < 2 ^ 31
    rw [addClosed_lstreamId]
    exact hc.last

lemma Core.recvd (hc : Core h2) (hlive : r.1 ≠ .locReserved ∧ r.1 ≠ .remReserved) :
    Core (Recvd h2 id r) := by
  have hs := hc.setState id hlive
  unfold Recvd
  cases r.2 with
  | termStream err => exact (hs.setToReadVerify _).streamClose _ _
  | ignore => exact hs.setToReadVerify _
  | ok | termConn err => exact hs

lemma Recvd.cur (r : TfwStreamState × TfwStreamFsmRes) : (Recvd h2 id r).cur = h2.cur := by
  unfold Recvd
  cases r.2 with
  | termStream err =>
    simp only [tfwH2StreamClose, setToReadVerify]
    cases (h2.off.setToReadVerify .ignoreFrameData).curStream with
    | none => rfl
    | some id' => rfl
  | ok | termConn err | ignore => rfl

lemma Recvd.off (hcur : h2.off.curStream = some id) (r : TfwStreamState × TfwStreamFsmRes) :
    ∃ length toRead state, (length = h2.off.hdr.length ∨ length = 0) ∧
      (Recvd h2 id r).off =
        { h2.off with
          hdr.length := length, toRead := toRead, state := state
          curStream := match r.2 with
            | .termStream _ => none
            | _ => some id } := by
  obtain ⟨toRead, state, hoff⟩ := setToReadVerify_eq h2.off .ignoreFrameData
  unfold Recvd
  cases r.2 with
  | termStream err =>
    simp only [tfwH2StreamClose, setToReadVerify, hoff, hcur]
    exact ⟨0, toRead, state, .inr rfl, rfl⟩
  | ignore =>
    simp only [setToReadVerify, hoff]
    exact ⟨0, toRead, state, .inr rfl, by rw [← hcur]⟩
  | ok | termConn err =>
    exact ⟨h2.off.hdr.length, h2.off.toRead, h2.off.state, .inl rfl, by rw [← hcur]⟩

lemma NoClosed.recvd (hopen : h2.store.NoClosed) (hr : r.1 ≠ .closed) :
    (Recvd h2 id r).store.NoClosed := by
  unfold H2Store.NoClosed
  rw [Recvd.store_streams]
  exact hopen.setState _ hr

/-- What `tfw_h2_stream_state_process` returns for a frame other than RST_STREAM. -/
theorem Core.stateProcess (hc : Core h2) (hopen : h2.store.NoClosed)
    (hcur : h2.off.curStream = some id) (htype : h2.off.hdr.type ≠ .rstStream) :
    Post H2Stop.IsDrop
      (fun h2' => ∃ t r, h2.store.tfwH2FindStream id = some t ∧
        tfwH2StreamFsm t.state h2.off.hdr.type h2.off.hdr.flags false = .ok r ∧
        (r.1 ≠ .locReserved ∧ r.1 ≠ .remReserved) ∧ r.1 ≠ .closed ∧
        (∀ err, r.2 ≠ .termConn err) ∧ h2' = Recvd h2 id r)
      h2.tfwH2StreamStateProcess := by
  obtain ⟨t, r, ht, hfsm, hlive, hclosed, hproc⟩ := hc.streamRecv hopen hcur
  have hnc : r.1 ≠ .closed := fun h => htype (hclosed h).1
  obtain ⟨state, res⟩ := r
  unfold tfwH2StreamStateProcess
  rw [hproc]
  cases res with
  | termConn err => trivial
  | termStream err => exact ⟨t, _, ht, hfsm, hlive, hnc, nofun, rfl⟩
  | ignore => exact ⟨t, _, ht, hfsm, hlive, hnc, nofun, rfl⟩
  | ok =>
    have hfind := find_setState_self state ht
    show Post _ _ (tfwH2CheckClosedStream { h2 with store := h2.store.setState id state })
    simp only [tfwH2CheckClosedStream, hcur, hfind]
    rw [if_neg hnc]
    exact ⟨t, _, ht, hfsm, hlive, hnc, nofun, by simp only [Recvd]⟩

/-- At the end of the application data, before the state machine of the stream. -/
structure AppDone (h2 : TfwH2Ctx) (q : List UInt8) : Prop where
  isApp : h2.cur.isApp = true
  padlen : h2.off.padlen = h2.cur.padLen
  plen : h2.off.plen + h2.cur.fieldsLen = h2.cur.hdr.length
  length : h2.off.hdr.length = 0
  owed : h2.cur.payload.length + h2.off.padlen = h2.cur.hdr.length
  dataOff : h2.off.dataOff < (h2.off.skbHead.flatten ++ q).length
  queue : Queue.App h2.off h2.cur q

lemma AppDone.read (h : AppDone h2 q) : h2.cur.fieldsLen < h2.cur.payload.length := by
  obtain ⟨-, -, hdata, -⟩ := h.queue
  have hlen := congrArg List.length hdata
  rw [length_append, length_drop, length_drop] at hlen
  have := h.dataOff
  omega

lemma AppDone.exit (h : AppDone h2 q) (hc : Core h2') (hopen : h2'.store.NoClosed)
    (hcur : h2'.cur = h2.cur) {state : TfwFrameState}
    (hoff : h2'.off =
      { h2.off with hdr.length := 0, toRead := toRead, state := state, curStream := curStream })
    (hst : AppState st h2.cur.hdr.type) (hpast : CurDetail.Past h2')
    (hlost : curStream = none → h2.cur.Lost) : Exited { h2' with off.state := st } q := by
  have hread := h.read
  obtain ⟨isApp, padlen, plen, length, owed, dataOff, queue⟩ := h
  have hst' : st ≠ .recvFrameSettings := by
    rcases hst with ⟨rfl, -⟩ | ⟨rfl, -⟩ | ⟨rfl, -⟩ <;> nofun
  have hsapp : st.app = true := by
    rcases hst with ⟨rfl, -⟩ | ⟨rfl, -⟩ | ⟨rfl, -⟩ <;> rfl
  have hns := isApp_not_settings isApp
  refine ⟨?_, hopen, ?_, ⟨fun h => absurd h hst', ?_⟩, fun h => absurd h hst', fun _ => ?_, ?_⟩
  · exact { hc with }
  · show h2'.cur.payload.length + h2'.off.padlen = h2'.cur.hdr.length
    rw [hcur, hoff]
    exact owed
  · show h2'.cur.hdr.type = .settings ∧ h2'.cur.hdr.length ≠ 0 → _
    rw [hcur]
    exact fun h => absurd h.1 hns
  · constructor
    · exact hcur ▸ isApp
    · show h2'.off.padlen = h2'.cur.padLen
      rw [hcur, hoff]
      exact padlen
    · exact hcur ▸ hread
    · show h2'.off.plen + h2'.cur.fieldsLen = h2'.cur.hdr.length
      rw [hcur, hoff]
      exact plen
    · show h2'.off.hdr.length = 0
      rw [hoff]
    · show h2'.off.dataOff < (h2'.off.skbHead.flatten ++ q).length
      rw [hoff]
      exact dataOff
    · show Queue.App { h2'.off with state := st } h2'.cur q
      rw [hoff, hcur]
      exact queue
    · exact hpast
    · show h2'.off.curStream = none → h2'.cur.Lost
      rw [hoff, hcur]
      exact hlost
  · intro h
    rw [show ({ h2'.off with state := st } : FrameCtx).state.app = true from hsapp] at h
    cases h

lemma Recvd.find (r : TfwStreamState × TfwStreamFsmRes) (id' : Nat) :
    (Recvd h2 id r).store.tfwH2FindStream id' =
      (h2.store.setState id r.1).tfwH2FindStream id' := by
  unfold tfwH2FindStream
  rw [Recvd.store_streams]

lemma AppDone.stateProcess (h : AppDone h2 q) (id : Nat) (hc : Core h2) (hopen : h2.store.NoClosed)
    (hcur : h2.off.curStream = some id) (hst : AppState st h2.cur.hdr.type)
    (hfound : ∀ t, h2.store.tfwH2FindStream id = some t → t.state = .remHalfClosed →
      h2.cur.found = some .remHalfClosed) :
    Post H2Stop.IsDrop (fun h2' => Exited { h2' with off.state := st } q)
      h2.tfwH2StreamStateProcess := by
  have htype : h2.off.hdr.type ≠ .rstStream := by
    rw [hc.type]
    rcases hst with ⟨-, ht⟩ | ⟨-, ht⟩ | ⟨-, ht⟩ <;> rw [ht] <;> nofun
  refine (hc.stateProcess hopen hcur htype).mono ?_
  rintro h2' ⟨t, r, ht, hfsm, hlive, hnc, hres, rfl⟩
  obtain ⟨length, toRead, state, hlen, hoff⟩ := Recvd.off hcur r
  obtain rfl : length = 0 := by
    rcases hlen with hlen | hlen
    · exact hlen.trans h.length
    · exact hlen
  refine h.exit (hc.recvd hlive) (NoClosed.recvd hopen hnc) (Recvd.cur r) hoff hst ?_ ?_
  · intro hends
    rw [hoff] at hends
    rw [hoff, ← (hc.mem id hcur).1, Recvd.find, find_setState_self r.1 ht]
    exact tfwH2StreamFsm_ends h2.off.hdr hfsm hends hres
  · intro hnone
    cases hr : r.2 with
    | termStream err =>
      exact .inr (.inr (hfound t ht (tfwH2StreamFsm_termStream hfsm hr)))
    | ok | termConn err | ignore =>
      rw [hr] at hnone
      cases hnone

lemma Core.reset (hc : Core h2) (hopen : h2.store.NoClosed) :
    Post H2Stop.IsDrop
      (fun h2' => Core h2' ∧ h2'.store.NoClosed ∧ h2'.cur = h2.cur ∧
        (∃ curStream, h2'.off = { h2.off with curStream := curStream }) ∧
        h2'.store.ids = h2.store.ids ∧
        ∀ id t, h2.off.curStream = some id → h2'.store.tfwH2FindStream id = some t →
          t.state.receiving = false)
      h2.resetCurStream := by
  unfold resetCurStream
  cases hcur : h2.off.curStream with
  | none =>
    refine ⟨?_, hopen, rfl, ⟨none, by rw [← hcur]⟩, rfl, nofun⟩
    exact { hc with }
  | some id =>
    obtain ⟨t, ht⟩ := exists_find (hc.mem id hcur).2
    obtain ⟨hmem, -⟩ := mem_of_find ht
    obtain ⟨r, hr, hlive, hnc, hrecv⟩ :=
      tfwH2StreamFsm_reset (hc.inv.live t hmem) (hopen t hmem)
    have hstate := find_setState_self r.1 ht
    have hs := hc.setState id hlive
    have hopen' := hopen.setState id hnc
    simp only [streamSendProcess, ht, hr]
    show Post _ _ (if r.2 = .ok then _ else _)
    by_cases hok : r.2 = .ok
    · rw [if_pos hok]
      refine ⟨hs.streamClose _ _, ?_, ?_, ?_, ?_, ?_⟩
      · simp only [tfwH2StreamClose, hcur]
        exact hopen'.addClosed
      · simp only [tfwH2StreamClose, hcur]
        rfl
      · simp only [tfwH2StreamClose, hcur]
        exact ⟨none, rfl⟩
      · simp only [tfwH2StreamClose, hcur]
        show map _ (tfwH2StreamAddClosed _ id).streams = _
        rw [addClosed_streams]
        exact ids_setState ..
      · rintro id' t' hid hfind
        cases hid
        simp only [tfwH2StreamClose, hcur] at hfind
        rw [show (TfwH2Ctx.send _ _).store = (h2.store.setState id r.1).tfwH2StreamAddClosed id
          from rfl, find_addClosed, hstate] at hfind
        cases hfind
        exact hrecv
    · rw [if_neg hok]
      refine ⟨hs, hopen', rfl, ⟨some id, by rw [← hcur]⟩, ids_setState .., ?_⟩
      rintro id' t' hid hfind
      cases hid
      rw [hstate] at hfind
      cases hfind
      exact hrecv

lemma Core.create (hc : Core h2) (hlt : h2.store.lstreamId < h2.off.hdr.streamId)
    (h : h2.store.tfwH2StreamCreate h2.off.hdr.streamId weight wnd = some store) :
    Core { h2 with
      store := { store with lstreamId := h2.off.hdr.streamId }
      off.curStream := some h2.off.hdr.streamId } := by
  refine ⟨hc.lset, hc.inv.create hlt h, ?_, ?_, hc.head, hc.type, hc.flags, hc.streamId⟩
  · show h2.off.hdr.streamId < 2 ^ 31
    rw [hc.streamId]
    exact Nat.mod_lt _ (by decide)
  · rintro id hid
    cases hid
    refine ⟨rfl, ?_⟩
    obtain ⟨-, t, ht, -, -, rfl⟩ := tfwH2StreamCreate_some h
    show _ ∈ map TfwStream.id (h2.store.streams ++ [t])
    rw [map_append, map_singleton, ht]
    exact mem_append_right _ (mem_singleton_self _)

lemma AppDone.headersProcess (h : AppDone h2 q) (hc : Core h2) (hopen : h2.store.NoClosed)
    (hopens : CurDetail.Opens h2) (htype : h2.cur.hdr.type = .headers)
    (hdep : h2.off.priority.streamId = h2.cur.dep) :
    Post H2Stop.IsDrop (fun h2' => Exited { h2' with off.state := .recvHeader } q)
      h2.tfwH2HeadersProcess := by
  have hst : AppState .recvHeader h2.cur.hdr.type := .inl ⟨rfl, htype⟩
  unfold tfwH2HeadersProcess
  by_cases hself : h2.off.priority.streamId = h2.off.hdr.streamId
  · rw [if_pos hself]
    have hdep' : h2.cur.dep = h2.cur.hdr.streamId := by rw [← hdep, hself, hc.streamId]
    have hc' : Core { h2 with off.state := .ignoreFrameData } :=
      { hc with }
    refine (hc'.reset hopen).mono ?_
    rintro h2' ⟨hcore, hnc, hcur, ⟨curStream, hoff⟩, hids, hrecv⟩
    have hoff' : h2'.off = { h2.off with
        hdr.length := 0, toRead := h2.off.toRead, state := .ignoreFrameData
        curStream := curStream } := by
      rw [hoff, ← h.length]
    refine h.exit hcore hnc hcur hoff' hst ?_ fun _ => .inr (.inl hdep')
    intro _
    cases hf : h2'.store.tfwH2FindStream h2'.off.hdr.streamId with
    | none => rw [hcur]; exact hdep'
    | some t =>
      rw [hoff] at hf
      cases hcs : h2.off.curStream with
      | some id => exact hrecv id t hcs ((hc.mem id hcs).1 ▸ hf)
      | none =>
        obtain ⟨-, hlt, -⟩ := hopens.1 hcs
        have hmem := H2Store.find_isSome_iff.mp (Option.isSome_of_eq_some hf)
        rw [hids] at hmem
        obtain ⟨t', ht', hid'⟩ := List.mem_map.mp hmem
        have hle := hc.inv.last t' ht'
        rw [hid'] at hle
        exact absurd hlt (Nat.not_lt.mpr hle)
  · rw [if_neg hself]
    cases hcur : h2.off.curStream with
    | some id => exact h.stateProcess id hc hopen hcur hst fun t => hopens.2 id t hcur
    | none =>
      obtain ⟨-, hlt, -⟩ := hopens.1 hcur
      cases hcr : h2.store.tfwH2StreamCreate h2.off.hdr.streamId h2.off.priority.weight
          h2.lsettings.wndSz with
      | none =>
        simp only
        trivial
      | some store =>
        simp only
        have hcore := hc.create hlt hcr
        obtain ⟨-, t₀, ht₀, hst₀, -, rfl⟩ := tfwH2StreamCreate_some hcr
        have hnew : t₀ ∈ h2.store.streams ++ [t₀] :=
          mem_append_right _ (mem_singleton_self _)
        refine AppDone.stateProcess ?_ h2.off.hdr.streamId hcore ?_ rfl hst ?_
        · exact ⟨h.isApp, h.padlen, h.plen, h.length, h.owed, h.dataOff, h.queue⟩
        · intro t ht
          rcases List.mem_append.mp ht with ht | ht
          · exact hopen t ht
          · rw [List.mem_singleton.mp ht, hst₀]
            nofun
        · intro t ht hrem
          obtain ⟨ht, hid⟩ := mem_of_find ht
          rw [hcore.inv.eq_of_id ht hnew (hid.trans ht₀.symm), hst₀] at hrem
          cases hrem

lemma GoodAt.appDone (h : GoodAt h2 q) (hst : h2.off.state.app = true)
    (hdone : h2.off.rlen = h2.off.toRead)
    (hfresh : h2.off.dataOff < (h2.off.skbHead.flatten ++ q).length) :
    AppDone h2 q ∧ Core h2 ∧ AppState h2.off.state h2.cur.hdr.type ∧
      h2.off.priority.streamId = h2.cur.dep ∧ CurDetail.Opens h2 := by
  have hf := h.inFrame (app_ne hst rfl) (app_ne hst rfl) (app_ne hst rfl)
  have howed := hf.owed
  have hd := hf.detail
  have hq := h.queue
  have hcurs := h.curs
  unfold Detail at hd
  unfold Queue at hq
  unfold CurDetail at hcurs
  have key : AppState h2.off.state h2.cur.hdr.type ∧ Detail.App h2.off h2.cur ∧
      Queue.App h2.off h2.cur q ∧ CurDetail.Opens h2 := by
    cases hs : h2.off.state with
    | recvHeader =>
      rw [hs] at hd hq hcurs
      exact ⟨.inl ⟨rfl, hd.1⟩, hd.2, hq, hcurs⟩
    | recvCont =>
      rw [hs] at hd hq hcurs
      exact ⟨.inr (.inl ⟨rfl, hd.1⟩), hd.2, hq, hcurs⟩
    | recvData =>
      rw [hs] at hd hq hcurs
      exact ⟨.inr (.inr ⟨rfl, hd.1⟩), hd.2, hq, hcurs⟩
    | _ =>
      rw [hs] at hst
      cases hst
  obtain ⟨hstate, ⟨hpad, hlen, hpay, hdep, hplen⟩, hqueue, hopens⟩ := key
  have happ : h2.cur.isApp = true := by
    rcases hstate with ⟨-, ht⟩ | ⟨-, ht⟩ | ⟨-, ht⟩ <;> rw [isApp, ht] <;> rfl
  refine ⟨⟨happ, hpad, hplen, hlen, ?_, hfresh, hqueue⟩, h.core hf, hstate, hdep, hopens⟩
  omega

lemma GoodAt.service (h : GoodAt h2 q) (hst : h2.off.state = st) (h₁ : st ≠ .recvCliStartSeq)
    (h₂ : st ≠ .recvFrameHeader) (h₃ : st ≠ .recvFirstSettings) :
    Core h2 ∧ InFrame h2.off h2.cur := by
  have hf := h.inFrame (hst ▸ h₁) (hst ▸ h₂) (hst ▸ h₃)
  exact ⟨h.core hf, hf⟩

lemma GoodAt.pingDone (h : GoodAt h2 q) (hst : h2.off.state = .recvFramePing)
    (hdone : h2.off.rlen = h2.off.toRead) (sent : List SentFrame) :
    Exited { h2 with sent := sent, off.state := .recvFramePing } q := by
  obtain ⟨hc, -⟩ := h.service hst nofun nofun nofun
  refine h.exitService { h2 with sent := sent } hdone hst (.inr (.inr (.inl rfl))) ?_ ?_
    rfl rfl
  · exact { hc with }
  · exact h.noClosed (by rw [hst]; nofun)

lemma GoodAt.resetDone (h : GoodAt h2 q) (hst : h2.off.state = st)
    (hcase : st = .recvFramePriority ∨ st = .recvFrameWndUpdate)
    (hdone : h2.off.rlen = h2.off.toRead) (pri : TfwFramePri) :
    Post H2Stop.IsDrop (fun h2' => Exited { h2' with off.state := st } q)
      (resetCurStream { h2 with off.priority := pri }) := by
  obtain ⟨hc, -⟩ := h.service hst (by rcases hcase with rfl | rfl <;> nofun)
    (by rcases hcase with rfl | rfl <;> nofun) (by rcases hcase with rfl | rfl <;> nofun)
  have hc' : Core { h2 with off.priority := pri } :=
    { hc with }
  have hopen := h.noClosed (by rw [hst]; rcases hcase with rfl | rfl <;> nofun)
  refine (hc'.reset hopen).mono ?_
  rintro h2' ⟨hcore, hnc, hcur, ⟨curStream, hoff⟩, -⟩
  refine h.exitService _ hdone hst ?_ hcore hnc hcur ?_
  · rcases hcase with rfl | rfl
    · exact .inl rfl
    · exact .inr (.inl rfl)
  · rw [hoff]

lemma GoodAt.rstDone (h : GoodAt h2 q) (hst : h2.off.state = .recvFrameRstStream)
    (hdone : h2.off.rlen = h2.off.toRead) :
    Post H2Stop.IsDrop (fun h2' => Exited { h2' with off.state := .recvFrameRstStream } q)
      h2.tfwH2RstStreamProcess := by
  obtain ⟨hc, -⟩ := h.service hst nofun nofun nofun
  have hcurs := h.curs
  unfold CurDetail at hcurs
  rw [hst] at hcurs
  obtain ⟨id, hcur⟩ := Option.ne_none_iff_exists'.mp hcurs
  obtain ⟨store, hstore⟩ := exists_remove (hc.mem id hcur).2
  simp only [tfwH2RstStreamProcess, hcur, hstore]
  refine h.exitService { h2 with store := store, off.curStream := none } hdone hst
    (.inr (.inr (.inr (.inl rfl)))) ?_ ?_ rfl rfl
  · refine ⟨hc.lset, hc.inv.remove hstore, ?_, nofun, hc.head, hc.type, hc.flags, hc.streamId⟩
    show store.lstreamId < 2 ^ 31
    rw [remove_lstreamId hstore]
    exact hc.last
  · intro t ht hclosed
    obtain ⟨ht, hne⟩ := (mem_of_remove hstore).mp ht
    obtain ⟨-, heq⟩ := h.closed t ht hclosed
    rw [hcur] at heq
    exact hne (Option.some.inj heq).symm

lemma Core.settingsNext (hc : Core h2) (hopen : h2.store.NoClosed) (hpieces : h2.cur.pieces = [])
    (htype : h2.cur.hdr.type = .settings) (hack : hasFlag h2.cur.hdr.flags .ack = false)
    (hpad : h2.off.padlen = 0) (hmod : h2.off.hdr.length % 6 = 0) (hne : h2.off.hdr.length ≠ 0)
    (howed : h2.cur.payload.length + h2.off.hdr.length = h2.cur.hdr.length) :
    GoodAt { h2.nextSettings with off.state := .recvFrameSettings, off.rlen := 0 } q := by
  have h6 : frameSettingsEntrySize = 6 := rfl
  have hne' : h2.cur.hdr.length ≠ 0 := by omega
  simp only [nextSettings, if_pos hne]
  refine Core.good ?_ ?_ ?_ ?_ ?_ ?_ ?_
  · exact { hc with }
  · exact Nat.zero_le _
  · show h2.cur.payload.length + (frameSettingsEntrySize - 0) +
      (h2.off.hdr.length - frameSettingsEntrySize) + h2.off.padlen = h2.cur.hdr.length
    omega
  · refine ⟨htype, hack, hne', rfl, hpad, ?_⟩
    show (h2.off.hdr.length - frameSettingsEntrySize) % 6 = 0
    omega
  · exact hpieces
  · trivial
  · exact fun t ht h => absurd h (hopen t ht)

lemma GoodAt.settingsDone (h : GoodAt h2 q) (hst : h2.off.state = .recvFrameSettings)
    (hdone : h2.off.rlen = h2.off.toRead) :
    Post H2Stop.IsDrop
      (fun h2' => Goes q (if h2'.off.toRead ≠ 0 then h2'.fsmMove .recvFrameSettings
        else (h2'.send .settingsAck).fsmExit .recvFrameSettings))
      h2.tfwH2SettingsProcess := by
  obtain ⟨hc, hf⟩ := h.service hst nofun nofun nofun
  have howed := hf.owed
  have hd := hf.detail
  have hpieces := h.queue
  unfold Detail at hd
  unfold Queue at hpieces
  rw [hst] at hd hpieces
  obtain ⟨htype, hack, hne, htr, hpad, hmod⟩ := hd
  have hopen := h.noClosed (by rw [hst]; nofun)
  unfold tfwH2SettingsProcess
  split
  · trivial
  · next rsettings _ =>
    by_cases hlen : h2.off.hdr.length = 0
    · have hzero : (nextSettings { h2 with rsettings := rsettings }).off.toRead = 0 :=
        if_neg (not_not_intro hlen)
      show Goes q (if _ then _ else _)
      rw [if_neg (not_not_intro hzero)]
      refine ⟨?_, hopen, ?_, ⟨fun _ => ⟨htype, hne⟩, fun _ => rfl⟩, fun _ => hack, nofun,
        fun _ => ?_⟩
      · exact { hc with }
      · show h2.cur.payload.length + h2.off.padlen = h2.cur.hdr.length
        omega
      · refine ⟨.of_not_app hpieces ?_, .inl hpad⟩
        show h2.cur.isApp = false
        rw [isApp, htype]
        rfl
    · have hsix : (nextSettings { h2 with rsettings := rsettings }).off.toRead = 6 := if_pos hlen
      show Goes q (if _ then _ else _)
      rw [if_pos (by rw [hsix]; decide)]
      refine ⟨?_, ?_⟩
      · have hc' : Core { h2 with rsettings := rsettings } :=
          { hc with }
        refine hc'.settingsNext hopen hpieces htype hack hpad hmod hlen ?_
        show h2.cur.payload.length + h2.off.hdr.length = h2.cur.hdr.length
        omega
      · show 0 < (nextSettings { h2 with rsettings := rsettings }).off.toRead
        rw [hsix]
        decide

lemma Core.ignoreRest (hc : Core h2) (hopen : h2.store.NoClosed) (hpieces : h2.cur.pieces = [])
    (happ : h2.cur.isApp = false) (htype : h2.cur.hdr.type ≠ .settings) (hpad : h2.off.padlen = 0)
    (howed : h2.cur.payload.length + h2.off.hdr.length = h2.cur.hdr.length) :
    GoodAt { h2.setToRead with off.state := .ignoreFrameData, off.rlen := 0 } q := by
  refine Core.good ?_ ?_ ?_ ?_ ?_ ?_ ?_
  · exact { hc with }
  · exact Nat.zero_le _
  · show h2.cur.payload.length + (h2.off.hdr.length - 0) + 0 + h2.off.padlen = h2.cur.hdr.length
    omega
  · exact ⟨htype, hpad, rfl⟩
  · refine ⟨.of_not_app hpieces happ, fun h => ?_⟩
    rw [show h2.cur.isApp = true from h] at happ
    cases happ
  · intro hends
    have happ' := happ
    unfold isApp at happ'
    rw [← hc.type] at happ'
    simp only [setToRead, FrameCtx.setToRead, TfwFrameHdr.ends] at hends
    split at hends <;> simp_all
  · exact fun t ht h => absurd h (hopen t ht)

lemma GoodAt.goawayDone (h : GoodAt h2 q) (hst : h2.off.state = .recvFrameGoaway)
    (hdone : h2.off.rlen = h2.off.toRead) :
    Goes q (if h2.setToRead.off.toRead ≠ 0 then h2.setToRead.fsmMove .ignoreFrameData
      else h2.setToRead.fsmExit .recvFrameGoaway) := by
  obtain ⟨hc, hf⟩ := h.service hst (by decide) (by decide) (by decide)
  have howed := hf.owed
  have hd := hf.detail
  have hpieces := h.queue
  unfold Detail at hd
  unfold Queue at hpieces
  rw [hst] at hd hpieces
  obtain ⟨htype, htr, hpad⟩ := hd
  have hopen := h.noClosed (by rw [hst]; decide)
  by_cases hlen : h2.off.hdr.length = 0
  · rw [if_neg (show ¬h2.setToRead.off.toRead ≠ 0 from not_not_intro hlen)]
    refine h.exitService h2.setToRead hdone hst (.inr (.inr (.inr (.inr ⟨rfl, hlen⟩))))
      ?_ hopen rfl rfl
    exact { hc with }
  · rw [if_pos (show h2.setToRead.off.toRead ≠ 0 from hlen)]
    refine ⟨?_, Nat.pos_of_ne_zero hlen⟩
    refine hc.ignoreRest hopen hpieces ?_ ?_ hpad ?_
    · rw [isApp, htype]
      rfl
    · rw [htype]
      decide
    · omega

lemma GoodAt.ignoreDone (h : GoodAt h2 q) (hst : h2.off.state = .ignoreFrameData)
    (hdone : h2.off.rlen = h2.off.toRead) : Exited { h2 with off.state := .ignoreFrameData } q := by
  obtain ⟨hc, hf⟩ := h.service hst nofun nofun nofun
  have howed := hf.owed
  have hd := hf.detail
  have hq := h.queue
  unfold Detail at hd
  unfold Queue at hq
  rw [hst] at hd hq
  obtain ⟨htype, hpad, hlen⟩ := hd
  refine ⟨?_, h.noClosed (by rw [hst]; nofun), ?_, ⟨nofun, fun h => absurd h.1 htype⟩, nofun, nofun,
    fun _ => ⟨hq.1, .inl hpad⟩⟩
  · exact { hc with }
  · show h2.cur.payload.length + h2.off.padlen = h2.cur.hdr.length
    omega

end Tempesta.Http2
