import Tempesta.Http2.Runs

/-!
The end of a request. The state machine of the stream is run where the application
data of a frame ends; a frame without application data leaves the frame machine
earlier, and its END_STREAM or END_HEADERS is lost.
-/

namespace Tempesta.Http2

open PostLib TfwH2Ctx FrameRec H2Store Post

def H2Store.stateOf (s : H2Store) (id : Nat) : Option TfwStreamState :=
  (s.tfwH2FindStream id).map TfwStream.state

/-- With the frame the peer has sent the whole request, if its stream is in `state`;
a HEADERS frame may also open the stream. -/
def FrameRec.Finishes (f : FrameRec) (state : Option TfwStreamState) : Prop :=
  match f.hdr.type with
  | .data => hasFlag f.hdr.flags .endStream = true ∧ state = some .opened
  | .headers =>
    hasFlag f.hdr.flags .endStream = true ∧ hasFlag f.hdr.flags .endHeaders = true ∧
      (state = some .opened ∨ state = none)
  | .continuation => hasFlag f.hdr.flags .endHeaders = true ∧ state = some .contClosed
  | _ => False

instance (f : FrameRec) (state : Option TfwStreamState) : Decidable (f.Finishes state) := by
  unfold FrameRec.Finishes
  cases f.hdr.type <;> infer_instance

variable {state : Option TfwStreamState} {f : FrameRec} {s s' : H2Store} {id : Nat}
  {h2 h2' h2₀ : TfwH2Ctx} {o : FrameCtx} {q b buf : List UInt8}
  {r : TfwStreamState × TfwStreamFsmRes}

lemma FrameRec.Finishes.isApp (h : f.Finishes state) : f.isApp = true := by
  unfold Finishes at h
  unfold FrameRec.isApp
  cases ht : f.hdr.type with
  | data | headers | continuation => rfl
  | _ =>
    rw [ht] at h
    exact absurd h id

lemma FrameRec.Finishes.ne (h : f.Finishes state) : state ≠ some .remHalfClosed := by
  unfold Finishes at h
  cases ht : f.hdr.type with
  | data | continuation =>
    rw [ht] at h
    rw [h.2]
    nofun
  | headers =>
    rw [ht] at h
    rcases h.2.2 with h | h
    · rw [h]
      nofun
    · rw [h]
      nofun
  | _ =>
    rw [ht] at h
    exact absurd h id

lemma H2Store.stateOf_update (s : H2Store) (id : Nat) {f : TfwStream → TfwStream}
    (hid : ∀ t, (f t).id = t.id) (hstate : ∀ t, (f t).state = t.state) (id' : Nat) :
    (s.update id f).stateOf id' = s.stateOf id' := by
  unfold stateOf
  rw [find_update hid, Option.map_map]
  congr 1
  funext t
  by_cases h : id' = id
  · rw [Function.comp_apply, if_pos h, hstate]
  · rw [Function.comp_apply, if_neg h]

lemma H2Store.stateOf_eq_none : s.stateOf id = none ↔ id ∉ s.ids := by
  unfold stateOf
  rw [Option.map_eq_none_iff, ← find_isSome_iff, Option.isSome_iff_ne_none, not_not]

abbrev KeepsStore (h2 : TfwH2Ctx) : Except H2Stop TfwH2Ctx → Prop :=
  Post (fun _ => True) fun h2' => h2'.store = h2.store

lemma recvPadded_store (h2 : TfwH2Ctx) : KeepsStore h2 h2.tfwH2RecvPadded :=
  check trivial fun _ => rfl

lemma recvPriority_store (h2 : TfwH2Ctx) : KeepsStore h2 h2.tfwH2RecvPriority :=
  check trivial fun _ => rfl

lemma headersStart_store (h2 : TfwH2Ctx) : KeepsStore h2 h2.headersStart :=
  ite (fun _ => recvPadded_store h2.startApp) fun _ =>
    ite (fun _ => recvPriority_store h2.startApp) fun _ => rfl

lemma padProcess_store (h2 : TfwH2Ctx) : KeepsStore h2 h2.tfwH2FramePadProcess := by
  refine check trivial fun _ => ite (fun _ => rfl) fun _ => ?_
  cases h2.off.hdr.type with
  | data => exact rfl
  | headers => exact ite (fun _ => recvPriority_store _) fun _ => rfl
  | _ => trivial

lemma headersPri_store (h2 : TfwH2Ctx) : KeepsStore h2 h2.tfwH2HeadersPriProcess :=
  check trivial fun _ => rfl

lemma firstSettings_store (h2 : TfwH2Ctx) : KeepsStore h2 h2.tfwH2FirstSettingsVerify :=
  check trivial fun _ => check trivial fun _ => check trivial fun _ => rfl

lemma typeProcess_stateOf (h2 : TfwH2Ctx) (hinv : h2.store.Inv)
    (htype : h2.off.hdr.type = .data ∨ h2.off.hdr.type = .headers ∨
      h2.off.hdr.type = .continuation) :
    Post (fun _ => True)
      (fun h2' => h2'.store.stateOf h2.off.hdr.streamId = h2.store.stateOf h2.off.hdr.streamId)
      h2.tfwH2FrameTypeProcess := by
  unfold tfwH2FrameTypeProcess
  refine check trivial fun _ => ?_
  rcases htype with htype | htype | htype
  · simp only [htype]
    refine check trivial fun _ => ?_
    cases hf : h2.store.tfwH2FindStream h2.off.hdr.streamId with
    | none => trivial
    | some stream =>
      obtain ⟨wnd, locWnd, sent, hflow, -⟩ := tfwH2FlowControl_eq
        { h2 with off.curStream := some stream.id } stream
      have hstate := stateOf_update h2.store stream.id
        (f := fun t => { t with locWnd := wnd }) (fun _ => rfl) (fun _ => rfl)
        h2.off.hdr.streamId
      simp only [Option.map_some, hflow]
      refine ite (fun _ => ?_) fun _ => hstate
      exact (recvPadded_store _).mono fun h2' h => h ▸ hstate
  · simp only [htype]
    refine check trivial fun _ => ?_
    cases hf : h2.store.tfwH2FindStream h2.off.hdr.streamId with
    | some stream => exact (headersStart_store _).mono fun h2' h => h ▸ rfl
    | none =>
      refine check trivial fun _ => ?_
      have hnone : h2.off.hdr.streamId ∉ h2.store.ids := by
        rw [← find_isSome_iff, hf]
        nofun
      obtain ⟨store, hshrink, -, hids⟩ := shrink_spec h2.lsettings.maxStreams
        (P := fun s => h2.off.hdr.streamId ∉ s.ids)
        (fun s id s' hs hr => fun hmem => by
          obtain ⟨t, ht, hid⟩ := List.mem_map.mp hmem
          exact hs (List.mem_map.mpr ⟨t, ((mem_of_remove hr).mp ht).1, hid⟩))
        hinv hnone
      have hstate : store.stateOf h2.off.hdr.streamId = h2.store.stateOf h2.off.hdr.streamId := by
        rw [H2Store.stateOf_eq_none.mpr hids, H2Store.stateOf_eq_none.mpr hnone]
      simp only [hshrink]
      refine ite (fun _ => hstate) fun _ => ?_
      exact (headersStart_store _).mono fun h2' h => h ▸ hstate
  · simp only [htype]
    exact check trivial fun _ => check trivial fun _ => rfl

lemma Exited.appLen (he : Exited h2 q) (happ : h2.off.state.app = false)
    (hle : h2.cur.payload.length ≤ h2.cur.fieldsLen) : h2.cur.appLen = 0 := by
  have howed := he.owed
  have hpad := h2.cur.padBytes_le_fieldsLen
  unfold FrameRec.appLen
  rcases (he.other happ).2 with hz | ⟨-, -, hlen⟩ | ⟨-, -, hlen⟩
  · omega
  · omega
  · omega

lemma FrameRec.Finishes.fsm {state : TfwStreamState} (h : f.Finishes (some state))
    (hfsm : tfwH2StreamFsm state f.hdr.type f.hdr.flags false = .ok r) : r.1 = .remHalfClosed := by
  unfold Finishes at h
  cases ht : f.hdr.type with
  | data =>
    rw [ht] at h hfsm
    obtain ⟨hend, hst⟩ := h
    cases hst
    simp only [tfwH2StreamFsm, hend] at hfsm
    cases hfsm
    rfl
  | headers =>
    rw [ht] at h hfsm
    obtain ⟨hend, hhdrs, hst | hst⟩ := h
    · cases hst
      simp only [tfwH2StreamFsm, hend, hhdrs] at hfsm
      cases hfsm
      rfl
    · cases hst
  | continuation =>
    rw [ht] at h hfsm
    obtain ⟨hhdrs, hst⟩ := h
    cases hst
    simp only [tfwH2StreamFsm, hhdrs] at hfsm
    cases hfsm
    rfl
  | _ =>
    rw [ht] at h
    exact absurd h id

lemma Core.finish (hc : Core h2) (id : Nat) (hopen : h2.store.NoClosed)
    (hcur : h2.off.curStream = some id) (hfin : h2.cur.Finishes (h2.store.stateOf id)) :
    Post H2Stop.IsDrop (fun h2' => h2'.store.stateOf id = some .remHalfClosed)
      h2.tfwH2StreamStateProcess := by
  have htype : h2.off.hdr.type ≠ .rstStream := by
    intro h
    have happ := hfin.isApp
    rw [FrameRec.isApp, ← hc.type, h] at happ
    cases happ
  refine (hc.stateProcess hopen hcur htype).mono ?_
  rintro h2' ⟨t, r, ht, hfsm, -, -, -, rfl⟩
  rw [stateOf, ht] at hfin
  rw [hc.type, hc.flags] at hfsm
  rw [stateOf, Recvd.find, find_setState_self r.1 ht, ← hfin.fsm hfsm]
  rfl

lemma resetCurStream_stateOf (h2 : TfwH2Ctx)
    (hcur : ∀ id, h2.off.curStream = some id → h2.store.stateOf id = some .opened)
    (hid : ∀ id, h2.off.curStream = some id → id = h2.off.hdr.streamId)
    (hne : h2.store.stateOf h2.off.hdr.streamId ≠ some .remHalfClosed) :
    Post (fun _ => True)
      (fun h2' => h2'.store.stateOf h2.off.hdr.streamId ≠ some .remHalfClosed)
      h2.resetCurStream := by
  unfold resetCurStream
  cases hc : h2.off.curStream with
  | none => exact hne
  | some id =>
    obtain ⟨t, ht, hst⟩ := Option.map_eq_some_iff.mp (hcur id hc)
    have hstate := find_setState_self .locClosed ht
    simp only [streamSendProcess, ht, hst]
    show Post _ _ (Except.ok (tfwH2StreamClose _ _ _))
    simp only [tfwH2StreamClose, hc]
    show stateOf (tfwH2StreamAddClosed _ id) _ ≠ _
    rw [stateOf, find_addClosed, ← hid id hc]
    show ((h2.store.setState id .locClosed).tfwH2FindStream id).map TfwStream.state ≠ _
    rw [hstate]
    intro h
    cases h

lemma FrameRec.Finishes.of_headers (h : f.Finishes state) (ht : f.hdr.type = .headers) :
    (state = some .opened ∨ state = none) ∧ f.Finishes (some .opened) := by
  unfold Finishes at h ⊢
  rw [ht] at h ⊢
  exact ⟨h.2.2, h.1, h.2.1, .inl rfl⟩

/-- HEADERS with application data ends the request, unless it depends on its own
stream. -/
theorem Core.headersFinish (hc : Core h2) (hopen : h2.store.NoClosed) (hopens : CurDetail.Opens h2)
    (htype : h2.cur.hdr.type = .headers) (hdep : h2.off.priority.streamId = h2.cur.dep)
    (hfin : h2.cur.Finishes (h2.store.stateOf h2.off.hdr.streamId)) :
    Post (fun _ => True)
      (fun h2' => h2'.store.stateOf h2.off.hdr.streamId = some .remHalfClosed ↔
        h2.cur.dep ≠ h2.off.hdr.streamId)
      h2.tfwH2HeadersProcess := by
  unfold tfwH2HeadersProcess
  refine ite (fun hself => ?_) fun hself => ?_
  · have hopened : ∀ id, h2.off.curStream = some id → h2.store.stateOf id = some .opened := by
      intro id hid
      rw [(hc.mem id hid).1]
      rcases (hfin.of_headers htype).1 with h | h
      · exact h
      · exact absurd ((hc.mem id hid).1 ▸ (hc.mem id hid).2) (H2Store.stateOf_eq_none.mp h)
    refine (resetCurStream_stateOf { h2 with off.state := .ignoreFrameData } hopened
      (fun id hid => (hc.mem id hid).1) hfin.ne).mono fun h2' h => ?_
    exact ⟨fun h' => absurd h' h, fun h' => absurd (hdep ▸ hself) h'⟩
  · have hiff : ∀ {h2' : TfwH2Ctx},
        h2'.store.stateOf h2.off.hdr.streamId = some .remHalfClosed →
          (h2'.store.stateOf h2.off.hdr.streamId = some .remHalfClosed ↔
            h2.cur.dep ≠ h2.off.hdr.streamId) :=
      fun h => ⟨fun _ => hdep ▸ hself, fun _ => h⟩
    cases hcur : h2.off.curStream with
    | some id =>
      rw [← (hc.mem id hcur).1] at hfin hiff ⊢
      have hpost := hc.finish id hopen hcur hfin
      cases hx : h2.tfwH2StreamStateProcess with
      | error e => trivial
      | ok h2' => exact hiff (hpost.of_ok hx)
    | none =>
      cases hcr : h2.store.tfwH2StreamCreate h2.off.hdr.streamId h2.off.priority.weight
          h2.lsettings.wndSz with
      | none => trivial
      | some store =>
        have hcore := hc.create (hopens.1 hcur).2.1 hcr
        obtain ⟨hnew, t₀, ht₀, hst₀, -, rfl⟩ := tfwH2StreamCreate_some hcr
        have hmem : t₀ ∈ h2.store.streams ++ [t₀] :=
          List.mem_append_right _ (List.mem_singleton_self _)
        have hfind := find_of_mem hcore.inv hmem
        rw [ht₀] at hfind
        have hpost := hcore.finish h2.off.hdr.streamId ?_ rfl ?_
        · simp only
          cases hx : tfwH2StreamStateProcess _ with
          | error e => trivial
          | ok h2' => exact hiff (hpost.of_ok hx)
        · intro t ht
          rcases List.mem_append.mp ht with ht | ht
          · exact hopen t ht
          · rw [List.mem_singleton.mp ht, hst₀]
            nofun
        · rw [stateOf, hfind, Option.map_some, hst₀]
          exact (hfin.of_headers htype).2

lemma FrameRec.dep_of_type (h : f.hdr.type ≠ .headers) : f.dep = 0 := by
  rw [dep, withPri, beq_false_of_ne h, Bool.false_and]
  rfl

variable {st : TfwFrameState}

lemma fsmNext_store (h2 : TfwH2Ctx) : (h2.fsmNext st).1.store = h2.store := by
  unfold fsmNext
  by_cases h : h2.off.toRead ≠ 0
  · rw [if_pos h]
  · rw [if_neg h]
    rfl

lemma InFrame.app_cases (hf : InFrame o f) (happ : f.isApp = true) :
    o.state = .recvFramePadded ∨ o.state = .recvHeaderPri ∨ o.state = .ignoreFrameData ∨
      o.state.app = true := by
  have hd := hf.detail
  unfold Detail at hd
  rw [FrameRec.isApp] at happ
  cases hs : o.state with
  | recvFramePadded => exact .inl rfl
  | recvHeaderPri => exact .inr (.inl rfl)
  | ignoreFrameData => exact .inr (.inr (.inl rfl))
  | recvHeader | recvCont | recvData => exact .inr (.inr (.inr rfl))
  | recvFrameHeader | recvCliStartSeq | recvFirstSettings =>
    rw [hs] at hd
    exact absurd hd id
  | _ =>
    rw [hs] at hd
    rw [hd.1] at happ
    cases happ

/-- Outside the application data, the stream of an application frame stays in its
state. -/
theorem GoodAt.kept (h : GoodAt h2 q) (happ : h2.cur.isApp = true)
    (hst : h2.off.state.app = false) :
    Post (fun _ => True)
      (fun r => r.1.store.stateOf h2.cur.hdr.streamId = h2.store.stateOf h2.cur.hdr.streamId)
      h2.frameDone := by
  unfold TfwH2Ctx.frameDone
  rcases phase_cases _ _ h.phase with ⟨hs, -⟩ | ⟨hs | hs, hp⟩ | hf
  · rw [hs]
    exact rfl
  · rw [hs]
    have hhdr : h2.unpackHeader.off.hdr = h2.cur.hdr := congrArg tfwH2UnpackFrameHeader hp.rbuf
    have htype : h2.unpackHeader.off.hdr.type = .data ∨ h2.unpackHeader.off.hdr.type = .headers ∨
        h2.unpackHeader.off.hdr.type = .continuation := by
      rw [hhdr]
      simp only [FrameRec.isApp, Bool.or_eq_true, beq_iff_eq] at happ
      exact or_assoc.mp happ
    refine (typeProcess_stateOf h2.unpackHeader h.inv htype).map fun h2' hkeep => ?_
    rw [hhdr] at hkeep
    rw [fsmNext_store]
    exact hkeep
  · rw [hs]
    refine (firstSettings_store h2).bind fun h2' hstore => ?_
    by_cases htr : h2'.off.toRead ≠ 0
    · simp only [if_pos htr]
      exact congrArg (stateOf · _) hstore
    · simp only [if_neg htr]
      exact congrArg (stateOf · _) hstore
  · rcases hf.app_cases happ with hs | hs | hs | hs
    · rw [hs]
      refine (padProcess_store h2).map fun h2' hstore => ?_
      rw [fsmNext_store, hstore]
    · rw [hs]
      refine (headersPri_store h2).map fun h2' hstore => ?_
      rw [fsmNext_store, hstore]
    · rw [hs]
      exact rfl
    · cases hst.symm.trans hs

lemma frameDone_app (hst : h2.off.state.app = true) :
    Post (fun _ => True) (fun r => r.2 = false) h2.frameDone := by
  have hall : ∀ (st : TfwFrameState) (x : Except H2Stop TfwH2Ctx),
      Post (fun _ => True) (fun r => r.2 = false) ((fsmExit · st) <$> x) := by
    intro st x
    cases x with
    | error e => trivial
    | ok h2' => exact rfl
  unfold frameDone
  cases hs : h2.off.state with
  | recvHeader | recvCont | recvData => exact hall _ _
  | _ =>
    rw [hs] at hst
    cases hst

lemma FrameRec.Finishes.ends (h : f.Finishes state) (hne : f.hdr.type ≠ .continuation) :
    f.hdr.ends = true ∧ (state = some .opened ∨ state = none) := by
  unfold Finishes at h
  unfold TfwFrameHdr.ends
  cases ht : f.hdr.type with
  | data =>
    rw [ht] at h
    exact ⟨h.1, .inl h.2⟩
  | headers =>
    rw [ht] at h
    refine ⟨?_, h.2.2⟩
    rw [h.1, h.2.1]
    rfl
  | continuation => exact absurd ht hne
  | _ =>
    rw [ht] at h
    exact absurd h id

lemma GoodAt.app_stateOf (h : GoodAt h2 q) (hdone : h2.off.rlen = h2.off.toRead)
    (hfresh : h2.off.dataOff < (h2.off.skbHead.flatten ++ q).length)
    (hst : h2.off.state.app = true) (hfin : h2.cur.Finishes (h2.store.stateOf h2.cur.hdr.streamId))
    (hpos : h2.store.stateOf h2.cur.hdr.streamId ≠ none → h2.cur.hdr.streamId ≠ 0) :
    0 < h2.cur.appLen ∧
      Post (fun _ => True)
        (fun r => r.1.store.stateOf h2.cur.hdr.streamId = some .remHalfClosed ↔
          h2.cur.dep ≠ h2.cur.hdr.streamId)
        h2.frameDone := by
  obtain ⟨hd, hc, hstate, hdep, hopens⟩ := h.appDone hst hdone hfresh
  have hopen : h2.store.NoClosed := h.noClosed (app_ne hst rfl)
  refine ⟨?_, ?_⟩
  · have hread := hd.read
    have howed := hd.owed
    have hpad := hd.padlen
    unfold FrameRec.appLen
    omega
  have hother : h2.cur.hdr.type ≠ .headers → ∀ st,
      Post (fun _ => True)
        (fun r => r.1.store.stateOf h2.cur.hdr.streamId = some .remHalfClosed ↔
          h2.cur.dep ≠ h2.cur.hdr.streamId)
        ((fsmExit · st) <$> h2.tfwH2StreamStateProcess) := by
    intro hne st
    cases hcur : h2.off.curStream with
    | none => exact absurd (hc.type ▸ (hopens.1 hcur).1) hne
    | some id =>
      have hid : id = h2.cur.hdr.streamId := (hc.mem id hcur).1.trans hc.streamId
      rw [← hid] at hfin hpos ⊢
      have hpost := hc.finish id hopen hcur hfin
      have hsome : h2.store.stateOf id ≠ none :=
        fun hn => absurd (hc.mem id hcur).2 (H2Store.stateOf_eq_none.mp hn)
      cases hx : h2.tfwH2StreamStateProcess with
      | error e => trivial
      | ok h2' =>
        rw [hx] at hpost
        refine ⟨fun _ => ?_, fun _ => hpost⟩
        rw [dep_of_type hne]
        exact (hpos hsome).symm
  unfold TfwH2Ctx.frameDone
  rcases hstate with ⟨hs, ht⟩ | ⟨hs, ht⟩ | ⟨hs, ht⟩
  · rw [hs]
    rw [← hc.streamId] at hfin ⊢
    exact (hc.headersFinish hopen hopens ht hdep hfin).map fun _ hiff => hiff
  · rw [hs]
    exact hother (by rw [ht]; nofun) _
  · rw [hs]
    exact hother (by rw [ht]; nofun) _

lemma GoodAt.past_finish (h : GoodAt h2 q) (hs : h2.off.state = .ignoreFrameData)
    (hne : h2.cur.hdr.type ≠ .continuation)
    (hfin : h2.cur.Finishes (h2.store.stateOf h2.cur.hdr.streamId)) :
    h2.cur.dep = h2.cur.hdr.streamId := by
  have hf := h.inFrame (by rw [hs]; nofun) (by rw [hs]; nofun) (by rw [hs]; nofun)
  have hpast := h.curs
  unfold CurDetail at hpast
  rw [hs] at hpast
  obtain ⟨hends, hstate⟩ := hfin.ends hne
  have hends' : h2.off.hdr.ends = true := by
    unfold TfwFrameHdr.ends at hends ⊢
    rw [hf.type, hf.flags]
    exact hends
  have hmatch := hpast hends'
  rw [hf.streamId] at hmatch
  unfold stateOf at hstate
  cases hfind : h2.store.tfwH2FindStream h2.cur.hdr.streamId with
  | none =>
    rw [hfind] at hmatch
    exact hmatch
  | some t =>
    rw [hfind] at hmatch hstate
    rcases hstate with hst | hst
    · replace hmatch : t.state.receiving = false := hmatch
      rw [Option.some.inj hst] at hmatch
      cases hmatch
    · cases hst

/-- Where the frame ends, its stream has ended the request if and only if there was
application data and the frame did not depend on its own stream. -/
theorem GoodAt.exit_stateOf (h : GoodAt h2 q) (hdone : h2.off.rlen = frameToRead h2.off)
    (hfresh : h2.off.state.app = true → h2.off.dataOff < (h2.off.skbHead.flatten ++ q).length)
    (hx : h2.frameDone = .ok (h2', false)) (he : Exited h2' q)
    (hcur : h2'.cur = { h2.cur with found := h2'.cur.found }) (hst' : h2'.off.state = h2.off.state)
    (hcont : h2.off.state = .ignoreFrameData → h2.cur.hdr.type ≠ .continuation)
    (hfin : h2.cur.Finishes (h2.store.stateOf h2.cur.hdr.streamId))
    (hpos : h2.store.stateOf h2.cur.hdr.streamId ≠ none → h2.cur.hdr.streamId ≠ 0) :
    h2'.store.stateOf h2.cur.hdr.streamId = some .remHalfClosed ↔
      0 < h2.cur.appLen ∧ h2.cur.dep ≠ h2.cur.hdr.streamId := by
  have happ := hfin.isApp
  have hkeep : h2.off.state.app = false →
      h2'.store.stateOf h2.cur.hdr.streamId ≠ some .remHalfClosed := by
    intro hs
    rw [(h.kept happ hs).of_ok hx]
    exact hfin.ne
  have hearly : h2.off.state.app = false → h2.cur.payload.length ≤ h2.cur.fieldsLen →
      (h2'.store.stateOf h2.cur.hdr.streamId = some .remHalfClosed ↔
        0 < h2.cur.appLen ∧ h2.cur.dep ≠ h2.cur.hdr.streamId) := by
    intro hs hle
    have hlen := he.appLen (hst' ▸ hs) (by rw [hcur]; exact hle)
    rw [hcur] at hlen
    replace hlen : h2.cur.appLen = 0 := hlen
    rw [hlen]
    exact ⟨fun h => absurd h (hkeep hs), fun h => absurd h.1 (Nat.lt_irrefl 0)⟩
  rcases phase_cases _ _ h.phase with ⟨hs, hp⟩ | ⟨hs, hp⟩ | hf
  · refine hearly (by rw [hs]; rfl) ?_
    rw [hp.payload]
    exact Nat.zero_le _
  · refine hearly (by rcases hs with hs | hs <;> rw [hs] <;> rfl) ?_
    rw [hp.payload]
    exact Nat.zero_le _
  have hd := hf.detail
  have hle := hf.le
  unfold Detail at hd
  rcases hf.app_cases happ with hs | hs | hs | hs
  · rw [hs] at hd
    refine hearly (by rw [hs]; rfl) ?_
    have := fieldsLen_of_padded hd.1
    have := hd.2.2.2.2.1
    omega
  · rw [hs] at hd
    refine hearly (by rw [hs]; rfl) ?_
    have := fieldsLen_of_withPri hd.1
    have := hd.2.2.2.1
    omega
  · have hself := h.past_finish hs (hcont hs) hfin
    exact ⟨fun h => absurd h (hkeep (by rw [hs]; rfl)), fun h => absurd hself h.2⟩
  · rw [hf.frameToRead] at hdone
    obtain ⟨hlen, hpost⟩ := h.app_stateOf hdone (hfresh hs) hs hfin hpos
    rw [hpost.of_ok hx]
    exact (and_iff_right hlen).symm

/-- Since the beginning of the call no stream has changed its state, but for a
service frame. -/
def Kept (h2₀ h2 : TfwH2Ctx) : Prop :=
  ∀ id, (h2.cur.head.length = frameHeaderSize → h2.cur.isApp = true ∧ h2.cur.hdr.streamId = id) →
    h2.store.stateOf id = h2₀.store.stateOf id

lemma Kept.read (h : Kept h2₀ h2) (hgood : GoodAt h2 q) (hroom : Room h2.off) :
    Kept h2₀ (h2.fsmRead b) := by
  intro id hid
  refine h id fun hhead => ?_
  have hread := hgood.read_hdr (b := b) hroom hhead
  unfold FrameRec.isApp hdr at hid ⊢
  rw [hread] at hid
  exact hid hhead

lemma GoodAt.ignore_type (h : GoodAt h2 q) (hroom : Room h2.off)
    (hs : h2.off.state = .ignoreFrameData) : h2.cur.hdr.type ≠ .continuation := by
  intro ht
  have hf := h.inFrame (by rw [hs]; nofun) (by rw [hs]; nofun) (by rw [hs]; nofun)
  have howed := hf.owed
  have hq := h.queue
  unfold Queue at hq
  rw [hs] at hq
  have hpad : h2.cur.padded = false := by
    rw [padded, ht]
    rfl
  have hpri : h2.cur.withPri = false := by
    rw [withPri, ht]
    rfl
  have happ : h2.cur.isApp = true := by
    rw [FrameRec.isApp, ht]
    rfl
  have hlen := (hq.2 happ).2
  rw [Room, hf.frameToRead] at hroom
  rw [FrameRec.appLen, fieldsLen, padBytes, padLen, hpad, hpri] at hlen
  simp only [Bool.false_eq_true, if_false] at hlen
  omega

lemma Kept.next (h : Kept h2₀ h2) (hgood : GoodAt h2 q) (hdone : h2.off.rlen = frameToRead h2.off)
    (hx : h2.frameDone = .ok (h2', true))
    (hcur : h2'.cur = { h2.cur with found := h2'.cur.found }) : Kept h2₀ h2' := by
  intro id hid
  rw [hcur] at hid
  rw [← h id hid]
  by_cases hst : h2.off.state = .recvCliStartSeq
  · unfold TfwH2Ctx.frameDone at hx
    rw [hst] at hx
    cases hx
    rfl
  · obtain ⟨happ, rfl⟩ := hid (hgood.head_length hdone hst)
    by_cases hs : h2.off.state.app = true
    · cases (frameDone_app hs).of_ok hx
    · exact (hgood.kept happ (Bool.eq_false_iff.mpr hs)).of_ok hx

lemma tfwH2FrameRecv_finish (hi : ConnInv h2₀) (hbuf : buf ≠ [])
    (hpos : ∀ id ∈ h2₀.store.ids, id ≠ 0) {r : FrameRecvRet} (hr : tfwH2FrameRecv h2₀ buf = .ok r)
    (hc : r.complete = true) (hfin : r.h2.cur.Finishes (h2₀.store.stateOf r.h2.cur.hdr.streamId)) :
    r.h2.store.stateOf r.h2.cur.hdr.streamId = some .remHalfClosed ↔
      0 < r.h2.cur.appLen ∧ r.h2.cur.dep ≠ r.h2.cur.hdr.streamId := by
  have hinit : Ready ⟨h2₀, buf⟩ [] := ⟨hi.good, hi.room, hi.start, hbuf⟩
  let I : FrameRecv → Prop := fun s => (∃ q, Ready s q) ∧ Kept h2₀ s.h2
  let Q : Except H2Stop FrameRecvRet → Prop := fun x => ∀ r, x = .ok r → r.complete = true →
    r.h2.cur.Finishes (h2₀.store.stateOf r.h2.cur.hdr.streamId) →
    (r.h2.store.stateOf r.h2.cur.hdr.streamId = some .remHalfClosed ↔
      0 < r.h2.cur.appLen ∧ r.h2.cur.dep ≠ r.h2.cur.hdr.streamId)
  refine (tfwH2FrameRecv_ends hinit).invariant (I := I) (Q := Q) ?_ ?_
    ⟨⟨[], hinit⟩, fun _ _ => rfl⟩ r hr hc hfin
  · rintro s s' ⟨⟨q, hready⟩, hkept⟩ hs
    have hcases := frameRecvStep_cases s hready
    have hspec := frameRecvStep_spec s hready
    rw [hs] at hcases hspec
    obtain ⟨b, -, -, hready', -⟩ := hspec
    refine ⟨⟨q ++ b, hready'⟩, ?_⟩
    cases hcases with
    | next hf hrest hx =>
      obtain ⟨-, hdone, -⟩ := hf.spec hready hx
      have hnext := (hkept.read hready.good hready.room).next hf.good hf.done hx hdone.cur
      exact hnext
  · rintro s x ⟨⟨q, hready⟩, hkept⟩ hs r hr hc hfin
    have hcases := frameRecvStep_cases s hready
    rw [hs, hr] at hcases
    cases hcases with
    | part ht hroom => cases hc
    | last hf hx => cases hc
    | @exit b rest h2' hf hx =>
      obtain ⟨hgoes, hdone, -⟩ := hf.spec hready hx
      have hkept' := hkept.read (b := b) hready.good hready.room
      have hcur : h2'.cur = { (s.h2.fsmRead b).cur with found := h2'.cur.found } := hdone.cur
      replace hfin : h2'.cur.Finishes (h2₀.store.stateOf h2'.cur.hdr.streamId) := hfin
      rw [hcur] at hfin
      replace hfin : (s.h2.fsmRead b).cur.Finishes
        (h2₀.store.stateOf (s.h2.fsmRead b).cur.hdr.streamId) := hfin
      have hsame := hkept' (s.h2.fsmRead b).cur.hdr.streamId fun _ => ⟨hfin.isApp, rfl⟩
      rw [← hsame] at hfin
      have hiff := hf.good.exit_stateOf hf.done hf.fresh hx hgoes hcur (hdone.exit rfl) ?_ hfin ?_
      · show h2'.store.stateOf h2'.cur.hdr.streamId = some .remHalfClosed ↔
          0 < h2'.cur.appLen ∧ h2'.cur.dep ≠ h2'.cur.hdr.streamId
        rw [hcur]
        exact hiff
      · intro hst
        have htype := hready.good.ignore_type hready.room hst
        have hdetail := (hready.good.inFrame (by rw [show s.h2.off.state = _ from hst]; nofun)
          (by rw [show s.h2.off.state = _ from hst]; nofun)
          (by rw [show s.h2.off.state = _ from hst]; nofun)).detail
        simp only [fsmRead, read_of_detail hdetail]
        exact htype
      · intro hne
        rw [hsame] at hne
        by_contra hzero
        exact hne (H2Store.stateOf_eq_none.mpr fun hmem => hpos _ hmem hzero)

lemma StoreRun.pos (hr : StoreRun s s') (h : ∀ t ∈ s.streams, t.id ≠ 0) :
    ∀ t ∈ s'.streams, t.id ≠ 0 := by
  induction hr with
  | refl => exact h
  | tail _ hs ih =>
    cases hs with
    | fsm hf hfsm hid hstate =>
      intro t ht
      obtain ⟨t₀, ht₀, rfl⟩ := List.mem_map.mp ht
      split_ifs
      · exact hid t₀ ▸ ih t₀ ht₀
      · exact ih t₀ ht₀
    | write hid hstate =>
      intro t ht
      obtain ⟨t₀, ht₀, rfl⟩ := List.mem_map.mp ht
      split_ifs
      · exact hid t₀ ▸ ih t₀ ht₀
      · exact ih t₀ ht₀
    | reqs => exact ih
    | queue =>
      rw [addClosed_streams]
      exact ih
    | remove hrem => exact fun t ht => ih t ((mem_of_remove hrem).mp ht).1
    | create hlt hcr =>
      obtain ⟨-, t₀, hid₀, -, -, rfl⟩ := tfwH2StreamCreate_some hcr
      intro t ht
      rcases List.mem_append.mp ht with ht | ht
      · exact ih t ht
      · rw [List.mem_singleton.mp ht, hid₀]
        exact Nat.ne_of_gt (Nat.zero_lt_of_lt hlt)

/-- On every run: when a frame with which the request is complete has been received,
its stream is in `HTTP2_STREAM_REM_HALF_CLOSED` if and only if the frame has
application data and does not depend on its own stream. -/
theorem endStream_kept_iff {es : List H2Event} {s : H2Sys}
    (h : es.foldlM h2Step h2Init = some s) {skb : List UInt8} (hskb : skb ≠ [])
    {r : FrameRecvRet} (hr : tfwH2FrameRecv s.h2 skb = .ok r) (hc : r.complete = true)
    (hfin : r.h2.cur.Finishes (s.h2.store.stateOf r.h2.cur.hdr.streamId)) :
    r.h2.store.stateOf r.h2.cur.hdr.streamId = some .remHalfClosed ↔
      0 < r.h2.cur.appLen ∧ r.h2.cur.dep ≠ r.h2.cur.hdr.streamId := by
  have hran := h2Run_init h
  refine tfwH2FrameRecv_finish hran.inv hskb ?_ hr hc hfin
  intro id hid
  obtain ⟨t, ht, rfl⟩ := List.mem_map.mp hid
  exact hran.store.pos nofun t ht

def openRun : List H2Event :=
  requestRun.take 1 ++ [.recv (h2Frame 1 4 1 [0x82]) .quiet]

theorem endStream_kept_data :
    ∃ s r, openRun.foldlM h2Step h2Init = some s ∧
      tfwH2FrameRecv s.h2 (h2Frame 0 1 1 [65]) = .ok r ∧
      r.h2.store.stateOf 1 = some .remHalfClosed := by
  have hrun : ((openRun.foldlM h2Step h2Init).bind fun s =>
      (tfwH2FrameRecv s.h2 (h2Frame 0 1 1 [65])).toOption.map fun r => decide
        (r.complete = true ∧ r.h2.cur.hdr.streamId = 1 ∧
          r.h2.cur.Finishes (s.h2.store.stateOf r.h2.cur.hdr.streamId) ∧
          0 < r.h2.cur.appLen ∧ r.h2.cur.dep ≠ r.h2.cur.hdr.streamId)) = some true := by
    decide +kernel
  obtain ⟨s, hs, hrest⟩ := Option.bind_eq_some_iff.mp hrun
  obtain ⟨r, hr, heq⟩ := Option.map_eq_some_iff.mp hrest
  obtain ⟨hc, hid, hfin, hlen⟩ := of_decide_eq_true heq
  cases hx : tfwH2FrameRecv s.h2 (h2Frame 0 1 1 [65]) with
  | error e =>
    rw [hx] at hr
    cases hr
  | ok r' =>
    rw [hx] at hr
    cases hr
    exact ⟨s, r, hs, hx, hid ▸ (endStream_kept_iff hs (by decide) hx hc hfin).mpr hlen⟩

/-- DATA with END_STREAM and no payload leaves the stream open. -/
theorem emptyData_endStream_lost :
    ∃ s s', openRun.foldlM h2Step h2Init = some s ∧ s.h2.store.stateOf 1 = some .opened ∧
      [H2Event.recv (h2Frame 0 1 1 []) .quiet].foldlM h2Step s = some s' ∧
      (∃ f, s'.h2.log = s.h2.log ++ [f] ∧ f.hdr.type = .data ∧ f.hdr.streamId = 1 ∧
        hasFlag f.hdr.flags .endStream = true ∧ f.payload.length = f.hdr.length) ∧
      s'.h2.store.stateOf 1 = some .opened := by
  have hrun : ((openRun.foldlM h2Step h2Init).bind fun s =>
      ([H2Event.recv (h2Frame 0 1 1 []) .quiet].foldlM h2Step s).map fun s' => decide
        (s.h2.store.stateOf 1 = some .opened ∧
          (∃ f ∈ s'.h2.log.getLast?, s'.h2.log = s.h2.log ++ [f] ∧ f.hdr.type = .data ∧
            f.hdr.streamId = 1 ∧ hasFlag f.hdr.flags .endStream = true ∧
            f.payload.length = f.hdr.length) ∧
          s'.h2.store.stateOf 1 = some .opened)) = some true := by
    decide +kernel
  obtain ⟨s, hs, hrest⟩ := Option.bind_eq_some_iff.mp hrun
  obtain ⟨s', hs', heq⟩ := Option.map_eq_some_iff.mp hrest
  obtain ⟨hopened, ⟨f, -, hf⟩, hopened'⟩ := of_decide_eq_true heq
  exact ⟨s, s', hs, hopened, hs', ⟨f, hf⟩, hopened'⟩

end Tempesta.Http2
