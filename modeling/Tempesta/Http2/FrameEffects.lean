import Tempesta.Http2.FrameTypes

/-!
What a state of the frame machine leaves alone: the history of the connection and
the number of acknowledgements sent. The store changes only by the steps below.
-/

namespace Tempesta.Http2

open PostLib TfwH2Ctx Post

/-- The ways in which the frame layer and the response side write to the store. -/
inductive StoreStep (s : H2Store) : H2Store → Prop
  | fsm {id t type flags send r f} (hf : s.tfwH2FindStream id = some t)
      (hfsm : tfwH2StreamFsm t.state type flags send = .ok r) (hid : ∀ t, (f t).id = t.id)
      (hstate : ∀ t, (f t).state = r.1) : StoreStep s (s.update id f)
  | write {id f} (hid : ∀ t, (f t).id = t.id)
      (hstate : ∀ t ∈ s.streams, t.id = id → (f t).state = t.state) : StoreStep s (s.update id f)
  | reqs {reqs} : StoreStep s { s with reqs := reqs }
  | queue {id} : StoreStep s (s.tfwH2StreamAddClosed id)
  | remove {id s'} (h : s.remove id = .ok s') : StoreStep s s'
  | create {id weight wnd s'} (hlt : s.lstreamId < id)
      (h : s.tfwH2StreamCreate id weight wnd = some s') : StoreStep s { s' with lstreamId := id }

variable {r : TfwStreamState × TfwStreamFsmRes} {type : TfwFrameType} {t : TfwStream}
  {flags : UInt8} {s : H2Store} {id maxStreams : Nat} {h2 h2' h2'' : TfwH2Ctx} {f : SentFrame}
  {x : Except H2Stop (TfwH2Ctx × Bool)} {next st : TfwFrameState}

lemma StoreStep.setState {send : Bool} (hf : s.tfwH2FindStream id = some t)
    (hfsm : tfwH2StreamFsm t.state type flags send = .ok r) : StoreStep s (s.setState id r.1) := by
  refine .fsm hf hfsm ?_ ?_
  · exact fun _ => rfl
  · exact fun _ => rfl

abbrev StoreRun : H2Store → H2Store → Prop :=
  Relation.ReflTransGen StoreStep

def TfwH2Ctx.acks (h2 : TfwH2Ctx) : Nat :=
  h2.sent.count .settingsAck

structure Effect (h2 h2' : TfwH2Ctx) : Prop where
  log : h2'.log = h2.log
  cur : h2'.cur = { h2.cur with found := h2'.cur.found }
  acks : h2'.acks = h2.acks
  skbHead : h2'.off.skbHead = h2.off.skbHead
  store : StoreRun h2.store h2'.store

/-- What only the loop around the machine writes -/
def TfwH2Ctx.history (h2 : TfwH2Ctx) : List FrameRec × FrameRec × List SentFrame × List
    (List UInt8) :=
  (h2.log, h2.cur, h2.sent, h2.off.skbHead)

lemma Effect.of_store (h : h2'.history = h2.history) (hstore : StoreRun h2.store h2'.store) :
    Effect h2 h2' := by
  simp only [history, Prod.mk.injEq] at h
  obtain ⟨hlog, hcur, hsent, hskb⟩ := h
  exact ⟨hlog, by rw [hcur], congrArg (List.count SentFrame.settingsAck) hsent, hskb, hstore⟩

lemma Effect.refl (h2 : TfwH2Ctx) : Effect h2 h2 :=
  .of_store rfl .refl

lemma Effect.trans (h : Effect h2 h2') (h' : Effect h2' h2'') :
    Effect h2 h2'' where
  log := h'.log.trans h.log
  cur := by rw [h'.cur, h.cur]
  acks := h'.acks.trans h.acks
  skbHead := h'.skbHead.trans h.skbHead
  store := h.store.trans h'.store

lemma Effect.after (h : Effect h2' h2'') (hhist : h2'.history = h2.history)
    (hstore : StoreRun h2.store h2'.store) : Effect h2 h2'' :=
  (Effect.of_store hhist hstore).trans h

lemma Effect.send (h2 : TfwH2Ctx) (hf : f ≠ .settingsAck) :
    Effect h2 (h2.send f) where
  log := rfl
  cur := rfl
  acks := by
    show (h2.sent ++ [f]).count .settingsAck = h2.sent.count .settingsAck
    rw [List.count_append, List.count_singleton, if_neg (by simpa using hf), Nat.add_zero]
  skbHead := rfl
  store := .refl

abbrev Effects (h2 : TfwH2Ctx) : Except H2Stop TfwH2Ctx → Prop :=
  Post (fun _ => True) (Effect h2)

lemma effect_setToReadVerify (h2 : TfwH2Ctx) (next : TfwFrameState) :
    Effect h2 (h2.setToReadVerify next) := by
  obtain ⟨toRead, state, hoff⟩ := setToReadVerify_eq h2.off next
  unfold setToReadVerify
  rw [hoff]
  exact .of_store rfl .refl

lemma effect_streamClose (h2 : TfwH2Ctx) (sid : Nat) (err : TfwH2Err) :
    Effect h2 (h2.tfwH2StreamClose sid err) := by
  unfold tfwH2StreamClose
  cases h2.off.curStream with
  | none => exact .send h2 nofun
  | some id =>
    refine Effect.after (Effect.send { h2 with
      store := h2.store.tfwH2StreamAddClosed id, off.curStream := none }
      (f := .rstStream sid err) nofun) rfl ?_
    exact .single .queue

lemma effect_streamRecvResult (hf : h2.store.tfwH2FindStream id = some t)
    (hfsm : tfwH2StreamFsm t.state type flags false = .ok r) :
    Post (fun _ => True) (fun p => Effect h2 p.1) (h2.streamRecvResult id r) := by
  have hset : Effect h2 { h2 with store := h2.store.setState id r.1 } :=
    .of_store rfl (.single (.setState hf hfsm))
  unfold streamRecvResult
  cases r.2 with
  | ok => exact hset
  | termConn err => trivial
  | termStream err =>
    exact (hset.trans (effect_setToReadVerify _ _)).trans
      (effect_streamClose _ _ _)
  | ignore => exact hset.trans (effect_setToReadVerify _ _)

lemma effect_streamRecvProcess (h2 : TfwH2Ctx) :
    Post (fun _ => True) (fun p => Effect h2 p.1) h2.streamRecvProcess := by
  unfold streamRecvProcess
  cases h2.off.curStream with
  | none => trivial
  | some id =>
    cases hf : h2.store.tfwH2FindStream id with
    | none =>
      simp only [hf]
      trivial
    | some t =>
      simp only [hf]
      cases hfsm : tfwH2StreamFsm t.state h2.off.hdr.type h2.off.hdr.flags false with
      | error e => trivial
      | ok r => exact effect_streamRecvResult hf hfsm

lemma effect_checkClosed (h2 : TfwH2Ctx) : Effects h2 h2.tfwH2CheckClosedStream := by
  unfold tfwH2CheckClosedStream
  cases h2.off.curStream with
  | none => trivial
  | some id =>
    cases hf : h2.store.tfwH2FindStream id with
    | none =>
      simp only [hf]
      trivial
    | some t =>
      simp only [hf]
      refine ite (fun _ => ?_) fun _ => .refl h2
      cases hr : h2.store.remove id with
      | error e => trivial
      | ok store => exact .of_store rfl (.single (.remove hr))

lemma effect_stateProcess (h2 : TfwH2Ctx) : Effects h2 h2.tfwH2StreamStateProcess := by
  unfold tfwH2StreamStateProcess
  refine (effect_streamRecvProcess h2).bind ?_
  rintro ⟨h2', left⟩ h
  refine ite (fun _ => h) fun _ => ?_
  exact (effect_checkClosed h2').mono fun _ h' => h.trans h'

lemma effect_reset (h2 : TfwH2Ctx) : Effects h2 h2.resetCurStream := by
  unfold resetCurStream
  cases hs : h2.store.streamSendProcess h2.off.curStream .rstStream 0 with
  | error e => trivial
  | ok r =>
    have hset : Effect h2 { h2 with store := r.1 } := by
      refine .of_store rfl ?_
      cases hcur : h2.off.curStream with
      | none =>
        rw [hcur] at hs
        cases hs
        exact .refl
      | some id =>
        rw [hcur] at hs
        obtain ⟨t, state, hf, hfsm, hr⟩ := H2Store.streamSendProcess_some hs
        rw [hr]
        exact .single (.setState hf hfsm)
    show Effects h2 (if r.2 = .ok then _ else _)
    exact ite (fun _ => hset.trans (effect_streamClose _ _ _)) fun _ => hset

lemma effect_headersProcess (hopens : CurDetail.Opens h2) :
    Effects h2 h2.tfwH2HeadersProcess := by
  unfold tfwH2HeadersProcess
  refine ite (fun _ => ?_) fun _ => ?_
  · exact (effect_reset _).mono fun _ h => h.after rfl .refl
  · cases hcur : h2.off.curStream with
    | some id => exact effect_stateProcess h2
    | none =>
      cases hcr : h2.store.tfwH2StreamCreate h2.off.hdr.streamId h2.off.priority.weight
          h2.lsettings.wndSz with
      | none =>
        simp only
        trivial
      | some store =>
        simp only
        refine (effect_stateProcess _).mono fun h2' h => h.after rfl ?_
        exact .single (.create (hopens.1 hcur).2.1 hcr)

lemma effect_wndUpdate (h2 : TfwH2Ctx) : Effects h2 h2.tfwH2WndUpdateProcess := by
  unfold tfwH2WndUpdateProcess
  refine ite (fun _ => .refl h2) fun _ => ?_
  cases h2.off.curStream with
  | none => trivial
  | some id => exact effect_reset h2

lemma effect_priority (h2 : TfwH2Ctx) : Effects h2 h2.tfwH2PriorityProcess := by
  unfold tfwH2PriorityProcess
  have hset : Effect h2 { h2 with off.priority := tfwH2UnpackPriority h2.off.rbuf } :=
    .of_store rfl .refl
  exact ite (fun _ => hset) fun _ => (effect_reset _).mono fun _ h => hset.trans h

lemma effect_rstStream (h2 : TfwH2Ctx) : Effects h2 h2.tfwH2RstStreamProcess := by
  unfold tfwH2RstStreamProcess
  cases h2.off.curStream with
  | none => trivial
  | some id =>
    cases hr : h2.store.remove id with
    | error e =>
      simp only [hr]
      trivial
    | ok store =>
      simp only [hr]
      exact .of_store rfl (.single (.remove hr))

lemma effect_settings (h2 : TfwH2Ctx) : Effects h2 h2.tfwH2SettingsProcess := by
  unfold tfwH2SettingsProcess
  split
  · trivial
  · exact .of_store rfl .refl

lemma effect_unpackHeader (h2 : TfwH2Ctx) : Effect h2 h2.unpackHeader :=
  ⟨rfl, rfl, rfl, rfl, .refl⟩

lemma effect_firstSettings (h2 : TfwH2Ctx) : Effects h2 h2.tfwH2FirstSettingsVerify := by
  unfold tfwH2FirstSettingsVerify
  refine check trivial fun _ => check trivial fun _ => check trivial fun _ => ?_
  exact (effect_unpackHeader h2).trans (.of_store rfl .refl)

lemma effect_recvPriority (h2 : TfwH2Ctx) : Effects h2 h2.tfwH2RecvPriority := by
  unfold tfwH2RecvPriority
  exact check trivial fun _ => .of_store rfl .refl

lemma effect_recvPadded (h2 : TfwH2Ctx) : Effects h2 h2.tfwH2RecvPadded := by
  unfold tfwH2RecvPadded
  exact check trivial fun _ => .of_store rfl .refl

lemma effect_headersPri (h2 : TfwH2Ctx) : Effects h2 h2.tfwH2HeadersPriProcess := by
  unfold tfwH2HeadersPriProcess
  refine check trivial fun _ => ?_
  exact (effect_setToReadVerify _ _).after rfl .refl

lemma effect_headersStart (h2 : TfwH2Ctx) : Effects h2 h2.headersStart := by
  unfold headersStart
  refine ite (fun _ => ?_) fun _ => ite (fun _ => ?_) fun _ => ?_
  · exact (effect_recvPadded _).mono fun _ h => h.after rfl .refl
  · exact (effect_recvPriority _).mono fun _ h => h.after rfl .refl
  · exact (effect_setToReadVerify _ _).after rfl .refl

lemma effect_padProcess (h2 : TfwH2Ctx) : Effects h2 h2.tfwH2FramePadProcess := by
  unfold tfwH2FramePadProcess
  refine check trivial fun _ => ite (fun _ => ?_) fun _ => ?_
  · exact .of_store rfl .refl
  split
  · exact .of_store rfl .refl
  · refine ite (fun _ => ?_) fun _ => .of_store rfl .refl
    exact (effect_recvPriority _).mono fun _ h => h.after rfl .refl
  · trivial

lemma effect_serviceStart (h : Post (fun _ => True) (fun p => Effect h2 p.1) x) :
    Effects h2 (serviceStart next <$> x) := by
  refine h.map ?_
  rintro ⟨h2', left⟩ h
  cases left with
  | true => exact h
  | false => exact h.trans (.of_store rfl .refl)

lemma effect_flowControl (h2 : TfwH2Ctx) (stream : TfwStream) :
    Effect h2 (h2.tfwH2FlowControl stream) := by
  obtain ⟨wnd, locWnd, sent, hflow, hsent⟩ := tfwH2FlowControl_eq h2 stream
  rw [hflow]
  refine ⟨rfl, rfl, ?_, rfl, .single (.write (fun _ => rfl) fun _ _ _ => rfl)⟩
  show (h2.sent ++ sent).count .settingsAck = h2.sent.count .settingsAck
  rw [List.count_append, List.count_eq_zero_of_not_mem hsent, Nat.add_zero]

lemma effect_shrinkFrom (n : Nat) (s : H2Store) :
    Post (fun _ => True) (StoreRun s) (H2Store.shrinkFrom maxStreams n s) := by
  induction n generalizing s with
  | zero => exact .refl
  | succ n ih =>
    rw [H2Store.shrinkFrom]
    refine ite (fun _ => .refl) fun _ => ?_
    cases s.closed with
    | nil => trivial
    | cons id rest =>
      cases hr : s.remove id with
      | error e =>
        simp only [hr]
        trivial
      | ok s' =>
        simp only [hr]
        exact (ih s').mono fun _ h => .head (.remove hr) h

lemma effect_startApp (h2 : TfwH2Ctx) : Effect h2 h2.startApp :=
  .of_store rfl .refl

lemma effect_typeProcess (h2 : TfwH2Ctx) : Effects h2 h2.tfwH2FrameTypeProcess := by
  unfold tfwH2FrameTypeProcess
  simp only
  refine check trivial fun _ => ?_
  have hfound : ∀ stream, Effect h2 { h2 with off.curStream := stream } :=
    fun _ => .of_store rfl .refl
  cases h2.off.hdr.type with
  | data =>
    refine check trivial fun _ => ?_
    cases h2.store.tfwH2FindStream h2.off.hdr.streamId with
    | none => trivial
    | some stream =>
      have hflow := (hfound (some stream.id)).trans (effect_flowControl _ stream)
      have happ := hflow.trans (effect_startApp _)
      refine ite (fun _ => ?_) fun _ => happ.trans (effect_setToReadVerify _ _)
      exact (effect_recvPadded _).mono fun _ h => happ.trans h
  | headers =>
    refine check trivial fun _ => ?_
    cases h2.store.tfwH2FindStream h2.off.hdr.streamId with
    | some stream => exact (effect_headersStart _).mono fun _ h => (hfound _).trans h
    | none =>
      refine check trivial fun _ => (effect_shrinkFrom _ h2.store).bind ?_
      intro store hstore
      have hset : Effect h2 { h2 with off.curStream := none, store := store } :=
        .of_store rfl hstore
      refine ite (fun _ => ?_) fun _ =>
        (effect_headersStart _).mono fun _ h => hset.trans h
      exact (hset.trans (effect_setToReadVerify _ _)).trans (.send _ nofun)
  | priority =>
    refine check trivial fun _ => check trivial fun _ =>
      ite (fun _ => ?_) fun _ => .of_store rfl .refl
    exact effect_serviceStart ((effect_streamRecvProcess _).mono fun _ h => (hfound _).trans h)
  | windowUpdate =>
    refine check trivial fun _ => check trivial fun _ => ite (fun _ => .of_store rfl .refl) fun _ =>
      check trivial fun _ => ?_
    exact effect_serviceStart ((effect_streamRecvProcess _).mono fun _ h => (hfound _).trans h)
  | settings =>
    refine check trivial fun _ => check trivial fun _ => ?_
    by_cases hack : hasFlag h2.off.hdr.flags .ack = true
    · simp only [if_pos hack]
      exact ite (fun _ => .of_store rfl .refl) fun _ =>
        .of_store rfl .refl
    · simp only [if_neg hack]
      exact ite (fun _ => .of_store rfl .refl) fun _ =>
        .of_store rfl .refl
  | pushPromise => trivial
  | ping =>
    exact check trivial fun _ => check trivial fun _ =>
      .of_store rfl .refl
  | rstStream =>
    refine check trivial fun _ => check trivial fun _ => check trivial fun _ =>
      check trivial fun _ => ?_
    exact effect_serviceStart ((effect_streamRecvProcess _).mono fun _ h => (hfound _).trans h)
  | goaway =>
    exact check trivial fun _ => check trivial fun _ =>
      .of_store rfl .refl
  | continuation =>
    refine check trivial fun _ => check trivial fun _ => ?_
    exact ((hfound _).trans (effect_startApp _)).trans (effect_setToReadVerify _ _)
  | undefined => exact .of_store rfl .refl

/-- What any state of the machine does to the history. Only the last entry of a
SETTINGS frame is acknowledged. -/
structure Done (h2 : TfwH2Ctx) (r : TfwH2Ctx × Bool) : Prop where
  log : r.1.log = h2.log
  cur : r.1.cur = { h2.cur with found := r.1.cur.found }
  acks : r.1.acks = h2.acks + if r.2 = false ∧ h2.off.state = .recvFrameSettings then 1 else 0
  skbHead : r.1.off.skbHead = h2.off.skbHead
  store : StoreRun h2.store r.1.store
  exit : r.2 = false → r.1.off.state = h2.off.state
  start : h2.off.state = .recvCliStartSeq → r.2 = true ∧ r.1.off.state = .recvFirstSettings

lemma Done.of_effect {r : TfwH2Ctx × Bool} (h : Effect h2 r.1)
    (hset : r.2 = false → h2.off.state ≠ .recvFrameSettings)
    (hexit : r.2 = false → r.1.off.state = h2.off.state)
    (hstart : h2.off.state = .recvCliStartSeq → r.2 = true ∧ r.1.off.state = .recvFirstSettings) :
    Done h2 r where
  log := h.log
  cur := h.cur
  acks := by rw [h.acks, if_neg fun hr => hset hr.1 hr.2, Nat.add_zero]
  skbHead := h.skbHead
  store := h.store
  exit := hexit
  start := hstart

lemma Done.fsmExit (hst : h2.off.state = st) (h : Effect h2 h2') (h₁ : st ≠ .recvFrameSettings)
    (h₂ : st ≠ .recvCliStartSeq) : Done h2 (h2'.fsmExit st) := by
  refine .of_effect (h.trans (.of_store rfl .refl)) ?_ ?_ ?_
  · exact fun _ => hst ▸ h₁
  · exact fun _ => hst.symm
  · exact fun h => absurd (hst ▸ h) h₂

lemma Done.fsmNext (hst : h2.off.state = st) (h : Effect h2 h2') (h₁ : st ≠ .recvFrameSettings)
    (h₂ : st ≠ .recvCliStartSeq) : Done h2 (h2'.fsmNext st) := by
  unfold TfwH2Ctx.fsmNext
  by_cases htr : h2'.off.toRead ≠ 0
  · rw [if_pos htr]
    exact .of_effect h nofun nofun fun h => absurd (hst ▸ h) h₂
  · rw [if_neg htr]
    exact .fsmExit hst h h₁ h₂

lemma done_settings (hst : h2.off.state = .recvFrameSettings) (h : Effect h2 h2') :
    Done h2 (if h2'.off.toRead ≠ 0 then h2'.fsmMove .recvFrameSettings
      else (h2'.send .settingsAck).fsmExit .recvFrameSettings) := by
  by_cases htr : h2'.off.toRead ≠ 0
  · rw [if_pos htr]
    refine .of_effect (h.trans (.of_store rfl .refl)) nofun nofun ?_
    intro hs
    rw [hst] at hs
    cases hs
  · rw [if_neg htr]
    refine ⟨h.log, h.cur, ?_, h.skbHead, h.store, fun _ => hst.symm, ?_⟩
    · rw [if_pos ⟨rfl, hst⟩, ← h.acks]
      show (h2'.sent ++ [SentFrame.settingsAck]).count SentFrame.settingsAck = _
      rw [List.count_append, List.count_singleton_self]
      rfl
    · intro hs
      rw [hst] at hs
      cases hs

lemma frameDone_done (hcurs : CurDetail h2) :
    Post (fun _ => True) (Done h2) h2.frameDone := by
  unfold frameDone
  unfold CurDetail at hcurs
  cases hst : h2.off.state with
  | recvCliStartSeq =>
    refine Done.of_effect ?_ nofun nofun fun _ => ⟨rfl, rfl⟩
    have hset : Effect h2 (h2.send (.settings h2.lsettings.wndSz)) := .send h2 nofun
    have hwnd := hset.trans (.send _ (f := .wndUpdate 0 (maxWndSize - defWndSize)) nofun)
    exact hwnd.trans (.of_store rfl .refl)
  | recvFirstSettings =>
    refine (effect_firstSettings h2).bind fun h2' h => ?_
    by_cases htr : h2'.off.toRead ≠ 0
    · simp only [if_pos htr]
      refine Done.of_effect (h.trans (.of_store rfl .refl)) nofun nofun ?_
      intro hs
      rw [hst] at hs
      cases hs
    · simp only [if_neg htr]
      exact .fsmExit hst h nofun nofun
  | recvFrameHeader =>
    exact (effect_typeProcess _).map fun _ h =>
      .fsmNext hst ((effect_unpackHeader h2).trans h) nofun nofun
  | recvFramePadded => exact (effect_padProcess h2).map fun _ h => .fsmNext hst h nofun nofun
  | recvHeaderPri => exact (effect_headersPri h2).map fun _ h => .fsmNext hst h nofun nofun
  | recvFramePriority => exact (effect_priority h2).map fun _ h => .fsmExit hst h nofun nofun
  | recvFrameWndUpdate => exact (effect_wndUpdate h2).map fun _ h => .fsmExit hst h nofun nofun
  | recvFramePing =>
    by_cases hack : hasFlag h2.off.hdr.flags .ack = true
    · simp only [if_pos hack]
      exact Done.fsmExit hst (.refl h2) nofun nofun
    · simp only [if_neg hack]
      exact Done.fsmExit hst (.send h2 nofun) nofun nofun
  | recvFrameRstStream => exact (effect_rstStream h2).map fun _ h => .fsmExit hst h nofun nofun
  | recvFrameSettings => exact (effect_settings h2).bind fun _ h => done_settings hst h
  | recvFrameGoaway =>
    have hset : Effect h2 h2.setToRead := .of_store rfl .refl
    by_cases htr : h2.setToRead.off.toRead ≠ 0
    · simp only [if_pos htr]
      refine Done.of_effect (hset.trans (.of_store rfl .refl)) nofun nofun ?_
      intro hs
      rw [hst] at hs
      cases hs
    · simp only [if_neg htr]
      exact Done.fsmExit hst hset nofun nofun
  | ignoreFrameData => exact Done.fsmExit hst (.refl h2) nofun nofun
  | recvData => exact (effect_stateProcess h2).map fun _ h => .fsmExit hst h nofun nofun
  | recvCont => exact (effect_stateProcess h2).map fun _ h => .fsmExit hst h nofun nofun
  | recvHeader =>
    rw [hst] at hcurs
    exact (effect_headersProcess hcurs).map fun _ h => .fsmExit hst h nofun nofun

end Tempesta.Http2
