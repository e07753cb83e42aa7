import Tempesta.Http2.FrameLoop

/-!
The response side between and within the steps of the frame machine: it closes
streams for responses, and links a stream with a new request. Neither moves a stream
back to a state in which the peer may send.
-/

namespace Tempesta.Http2

open PostLib TfwH2Ctx

/-- How the response side may change the state of a stream. -/
structure TfwStreamState.Later (state state' : TfwStreamState) : Prop where
  remHalfClosed : state' = .remHalfClosed → state = .remHalfClosed
  receiving : state.receiving = false → state'.receiving = false
  closed : state' = .closed ↔ state = .closed

lemma TfwStreamState.Later.refl (state : TfwStreamState) : state.Later state :=
  ⟨id, id, Iff.rfl⟩

variable {a b c state : TfwStreamState} {s s' store : H2Store} {id : Nat} {how : RespFrame}
  {t₀ t t' : TfwStream} {q : List UInt8} {h2 : TfwH2Ctx}

lemma TfwStreamState.Later.trans (h : a.Later b) (h' : b.Later c) : a.Later c :=
  ⟨h.remHalfClosed ∘ h'.remHalfClosed, h'.receiving ∘ h.receiving, h'.closed.trans h.closed⟩

lemma respFsm_later (hlive : state ≠ .locReserved ∧ state ≠ .remReserved) (how : RespFrame) :
    ∃ state', respFsm state how = .ok state' ∧ state.Later state' := by
  cases how <;> cases state <;>
    first | exact ⟨_, rfl, by decide, by decide, by decide⟩ | simp_all

namespace H2Store

structure Later (s s' : H2Store) : Prop where
  ids : s'.ids = s.ids
  last : s'.lstreamId = s.lstreamId
  states : ∀ id t', s'.tfwH2FindStream id = some t' →
    ∃ t, s.tfwH2FindStream id = some t ∧ t.state.Later t'.state
  run : StoreRun s s'

lemma Later.refl (s : H2Store) : Later s s :=
  ⟨rfl, rfl, fun _ t h => ⟨t, h, .refl _⟩, .refl⟩

lemma Later.trans {a b c : H2Store} (h : Later a b) (h' : Later b c) : Later a c where
  ids := h'.ids.trans h.ids
  last := h'.last.trans h.last
  states := by
    intro id t'' ht''
    obtain ⟨t', ht', hst'⟩ := h'.states id t'' ht''
    obtain ⟨t, ht, hst⟩ := h.states id t' ht'
    exact ⟨t, ht, hst.trans hst'⟩
  run := h.run.trans h'.run

lemma Later.link (id req : Nat) (reqs : List (Option Nat)) :
    Later s { s.update id fun t => { t with msg := some req } with reqs := reqs } where
  ids := ids_update fun _ => rfl
  last := rfl
  states := by
    intro id' t' ht'
    obtain ⟨t, ht, hst⟩ := find_update_state (s := s) ht' (fun _ => rfl) fun _ => rfl
    exact ⟨t, ht, hst ▸ .refl _⟩
  run := by
    refine .tail (b := s.update id fun t => { t with msg := some req }) (.single ?_) .reqs
    exact .write (fun _ => rfl) fun _ _ _ => rfl

lemma respFsm_step (hs : Inv s) (hf : s.tfwH2FindStream id = some t₀)
    (h : respFsm t₀.state how = .ok state) :
    StoreStep s (s.update id fun t => { t with state := state, msg := none }) := by
  obtain ⟨ht₀, hid₀⟩ := mem_of_find hf
  unfold respFsm at h
  cases hframe : how.frame with
  | none =>
    rw [hframe] at h
    cases h
    refine .write ?_ ?_
    · exact fun _ => rfl
    · intro t ht hid
      rw [hs.eq_of_id ht ht₀ (hid.trans hid₀.symm)]
  | some frame =>
    rw [hframe] at h
    simp only at h
    cases hfsm : tfwH2StreamFsm t₀.state frame.1 frame.2 true with
    | error e =>
      rw [hfsm] at h
      cases h
    | ok r =>
      rw [hfsm] at h
      cases h
      refine .fsm hf hfsm ?_ ?_
      · exact fun _ => rfl
      · exact fun _ => rfl

/-- `tfw_h2_stream_id_close` succeeds. -/
theorem Inv.idClose_later (hs : Inv s) (c : RespClose) :
    ∃ s', s.tfwH2StreamIdClose c = .ok s' ∧ Inv s' ∧ Later s s' := by
  have hok : ∃ s', s.tfwH2StreamIdClose c = .ok s' := by
    unfold tfwH2StreamIdClose
    cases hr : s.reqs.getD c.req none with
    | none => exact ⟨s, rfl⟩
    | some id =>
      have hreq := getElem?_of_getD hr
      obtain ⟨t, ht, hid, -⟩ := (hs.linked c.req id).mp hreq
      have hmem : id ∈ s.ids := hid ▸ List.mem_map_of_mem (f := TfwStream.id) ht
      obtain ⟨t₀, ht₀⟩ := exists_find hmem
      obtain ⟨state, hstate, -⟩ := respFsm_later (hs.live t₀ (mem_of_find ht₀).1) c.how
      simp only [ht₀, hstate]
      exact ⟨_, rfl⟩
  obtain ⟨s', hs'⟩ := hok
  refine ⟨s', hs', hs.idClose hs', ?_⟩
  rcases tfwH2StreamIdClose_ok hs' with rfl | ⟨id, t₀, state, hreq, hf, hfsm, rfl⟩
  · exact .refl _
  obtain ⟨state', hstate', hlater⟩ := respFsm_later (hs.live t₀ (mem_of_find hf).1) c.how
  obtain rfl : state' = state := Except.ok.inj (hstate'.symm.trans hfsm)
  constructor
  · show List.map _ (H2Store.tfwH2StreamAddClosed _ id).streams = _
    rw [addClosed_streams]
    exact ids_update fun _ => rfl
  · exact addClosed_lstreamId _ _
  · intro id' t' ht'
    rw [find_addClosed] at ht'
    have hup : (s.update id fun t => { t with state := state', msg := none }).tfwH2FindStream id' =
        some t' := ht'
    rw [find_update] at hup
    · obtain ⟨t, ht, rfl⟩ := Option.map_eq_some_iff.mp hup
      refine ⟨t, ht, ?_⟩
      by_cases hid : id' = id
      · rw [if_pos hid]
        rw [hid, hf] at ht
        cases ht
        exact hlater
      · rw [if_neg hid]
        exact .refl _
    · exact fun _ => rfl
  · exact .tail (.tail (.single (respFsm_step hs hf hfsm)) .reqs) .queue

lemma find_of_mem (hs : Inv s) (ht : t ∈ s.streams) : s.tfwH2FindStream t.id = some t := by
  obtain ⟨t', ht'⟩ := exists_find (List.mem_map_of_mem (f := TfwStream.id) ht)
  obtain ⟨hmem, hid⟩ := mem_of_find ht'
  rw [ht', hs.eq_of_id hmem ht hid]

lemma Later.of_closed (h : Later s s') (hs' : Inv s') (ht' : t' ∈ s'.streams)
    (hc : t'.state = .closed) : ∃ t ∈ s.streams, t.id = t'.id ∧ t.state = .closed := by
  obtain ⟨t, ht, hst⟩ := h.states t'.id t' (find_of_mem hs' ht')
  obtain ⟨hmem, hid⟩ := mem_of_find ht
  exact ⟨t, hmem, hid, hst.closed.mp hc⟩

lemma NoClosed.later (h : s.NoClosed) (hl : Later s s') (hs' : Inv s') : s'.NoClosed := by
  intro t' ht' hc
  obtain ⟨t, ht, -, hct⟩ := hl.of_closed hs' ht' hc
  exact h t ht hct

end H2Store

lemma CurDetail.Past.later (h : CurDetail.Past h2) (hl : h2.store.Later store) :
    CurDetail.Past { h2 with store := store } := by
  intro hends
  have hpast := h hends
  dsimp only
  cases hf' : store.tfwH2FindStream h2.off.hdr.streamId with
  | none =>
    cases hf : h2.store.tfwH2FindStream h2.off.hdr.streamId with
    | none =>
      rw [hf] at hpast
      exact hpast
    | some t =>
      have hmem := H2Store.find_isSome_iff.mp (Option.isSome_of_eq_some hf)
      rw [← hl.ids] at hmem
      obtain ⟨t', ht'⟩ := H2Store.exists_find hmem
      cases hf'.symm.trans ht'
  | some t' =>
    obtain ⟨t, ht, hst⟩ := hl.states _ t' hf'
    rw [ht] at hpast
    exact hst.receiving hpast

lemma CurDetail.Opens.later (h : CurDetail.Opens h2) (hl : h2.store.Later store) :
    CurDetail.Opens { h2 with store := store } := by
  refine ⟨fun hcur => ?_, fun id t' hcur ht' hrem => ?_⟩
  · obtain ⟨htype, hlt, hfound⟩ := h.1 hcur
    exact ⟨htype, hl.last ▸ hlt, hfound⟩
  · obtain ⟨t, ht, hst⟩ := hl.states id t' ht'
    exact h.2 id t hcur ht (hst.remHalfClosed hrem)

lemma CurDetail.later (h : CurDetail h2) (hl : h2.store.Later store) :
    CurDetail { h2 with store := store } := by
  unfold CurDetail at h ⊢
  dsimp only
  cases hst : h2.off.state with
  | recvFramePadded | recvHeaderPri | recvHeader | recvData | recvCont =>
    rw [hst] at h
    exact CurDetail.Opens.later h hl
  | ignoreFrameData =>
    rw [hst] at h
    exact CurDetail.Past.later h hl
  | _ =>
    rw [hst] at h
    exact h

lemma GoodAt.later (h : GoodAt h2 q) (hinv : store.Inv) (hl : h2.store.Later store) :
    GoodAt { h2 with store := store } q where
  lset := h.lset
  inv := hinv
  last := hl.last ▸ h.last
  phase := h.phase
  queue := h.queue
  mem := fun id hid => ⟨(h.mem id hid).1, hl.ids ▸ (h.mem id hid).2⟩
  curs := h.curs.later hl
  closed := by
    intro t' ht' hc
    obtain ⟨t, ht, hid, hct⟩ := hl.of_closed hinv ht' hc
    obtain ⟨hst, hcur⟩ := h.closed t ht hct
    exact ⟨hst, hid ▸ hcur⟩

lemma msgProcess_spec (h2 : TfwH2Ctx) (hinv : h2.store.Inv)
    (hmem : ∀ id, h2.off.curStream = some id → id ∈ h2.store.ids) (data : List UInt8)
    (reply : HttpReply) :
    Post H2Stop.IsDrop
      (fun h2' => ∃ store p, store.Inv ∧ h2.store.Later store ∧ p.stream = h2.off.curStream ∧
        p.plen = h2.off.plen ∧ p.data = data ∧
        h2' = { h2 with store := store, cur.pieces := h2.cur.pieces ++ [p] })
      (h2.tfwHttpMsgProcessGeneric data reply) := by
  unfold tfwHttpMsgProcessGeneric
  cases hcur : h2.off.curStream with
  | none => exact ⟨h2.store, ⟨none, none, h2.off.plen, data⟩, hinv, .refl _, rfl, rfl, rfl, rfl⟩
  | some id =>
    obtain ⟨t, ht⟩ := H2Store.exists_find (hmem id hcur)
    simp only [ht]
    refine Post.check trivial fun _ => ?_
    have hlink : ∀ linked, linked = (if t.msg.isSome = true then h2.store else
        { h2.store.update id fun t' =>
            { t' with msg := some (t.msg.getD h2.store.reqs.length) } with
          reqs := h2.store.reqs ++ [some id] }) → linked.Inv ∧ h2.store.Later linked := by
      rintro linked rfl
      cases hm : t.msg with
      | some r => exact ⟨hinv, .refl _⟩
      | none => exact ⟨hinv.link ht hm, .link id _ _⟩
    have hfold : Post H2Stop.IsDrop (fun s => s.Inv ∧ h2.store.Later s) _ :=
      Post.foldlM (f := H2Store.tfwH2StreamIdClose) reply.closings (fun s c hs => by
        obtain ⟨s', hs', hinv', hl'⟩ := hs.1.idClose_later c
        rw [hs']
        exact ⟨hinv', hs.2.trans hl'⟩) (hlink _ rfl)
    refine hfold.bind ?_
    rintro store ⟨hs, hl⟩
    exact ⟨store, ⟨some id, some _, h2.off.plen, data⟩, hs, hl, rfl, rfl, rfl, rfl⟩

end Tempesta.Http2
