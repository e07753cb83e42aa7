import Tempesta.Http2.Delivery

/-!
Streams that were reset on this side. The state machine accepts every frame on such
a stream, and the frame layer hands the payload up as before.
-/

namespace Tempesta.Http2

open TfwH2Ctx H2Store

/-- The stream has been reset: it is not there any more, or waits for its removal. -/
structure WasReset (id : Nat) (s : H2Store) : Prop where
  last : id ≤ s.lstreamId
  state : ∀ t ∈ s.streams, t.id = id → t.state = .locClosed ∨ t.state = .closed

variable {state : TfwStreamState} {type : TfwFrameType} {flags : UInt8} {send : Bool}
  {r : TfwStreamState × TfwStreamFsmRes} {s s' : H2Store} {id : Nat} {t : TfwStream}

lemma tfwH2StreamFsm_locClosed (h : tfwH2StreamFsm state type flags send = .ok r)
    (hst : state = .locClosed ∨ state = .closed) : r.1 = .locClosed ∨ r.1 = .closed := by
  rcases hst with rfl | rfl
  · simp only [tfwH2StreamFsm] at h
    split_ifs at h
    all_goals cases h
    all_goals simp only [true_or, or_true]
  · simp only [tfwH2StreamFsm] at h
    split_ifs at h
    all_goals cases h
    all_goals exact .inr rfl

lemma WasReset.step (h : WasReset id s) (hs : StoreStep s s') : WasReset id s' := by
  cases hs with
  | @fsm id' t type flags send r f hf hfsm hid hstate =>
    refine ⟨h.last, fun t' ht' heq => ?_⟩
    obtain ⟨t₀, ht₀, rfl⟩ := List.mem_map.mp ht'
    obtain ⟨hmem, hid'⟩ := mem_of_find hf
    by_cases hc : t₀.id = id'
    · rw [if_pos hc] at heq ⊢
      rw [hstate]
      rw [hid, hc] at heq
      exact tfwH2StreamFsm_locClosed hfsm (h.state t hmem (hid'.trans heq))
    · rw [if_neg hc] at heq ⊢
      exact h.state t₀ ht₀ heq
  | @write id' f hid hstate =>
    refine ⟨h.last, fun t' ht' heq => ?_⟩
    obtain ⟨t₀, ht₀, rfl⟩ := List.mem_map.mp ht'
    by_cases hc : t₀.id = id'
    · rw [if_pos hc] at heq ⊢
      rw [hstate t₀ ht₀ hc]
      exact h.state t₀ ht₀ ((hid t₀).symm.trans heq)
    · rw [if_neg hc] at heq ⊢
      exact h.state t₀ ht₀ heq
  | reqs => exact ⟨h.last, h.state⟩
  | queue =>
    refine ⟨?_, ?_⟩
    · rw [addClosed_lstreamId]
      exact h.last
    · rw [addClosed_streams]
      exact h.state
  | remove hr =>
    refine ⟨?_, fun t ht => h.state t ((mem_of_remove hr).mp ht).1⟩
    rw [remove_lstreamId hr]
    exact h.last
  | @create id' weight wnd s₁ hlt hc =>
    obtain ⟨-, t₀, hid₀, -, -, rfl⟩ := tfwH2StreamCreate_some hc
    refine ⟨h.last.trans hlt.le, fun t ht heq => ?_⟩
    rcases List.mem_append.mp ht with ht | ht
    · exact h.state t ht heq
    · rw [List.mem_singleton.mp ht, hid₀] at heq
      exact absurd (heq ▸ h.last) (Nat.not_le.mpr hlt)

lemma WasReset.run (h : WasReset id s) (hr : StoreRun s s') : WasReset id s' := by
  induction hr with
  | refl => exact h
  | tail _ hs ih => exact ih.step hs

lemma WasReset.of_find (hs : s.Inv) (hf : s.tfwH2FindStream id = some t)
    (hst : t.state = .locClosed) : WasReset id s := by
  obtain ⟨hmem, hid⟩ := mem_of_find hf
  refine ⟨?_, fun t' ht' hid' => ?_⟩
  · rw [← hid]
    exact hs.last t hmem
  · rw [hs.eq_of_id ht' hmem (hid'.trans hid.symm)]
    exact .inl hst

/-- A stream that is in `HTTP2_STREAM_LOC_CLOSED` stays reset, and of the frames whose
headers arrive on it afterwards nothing is handed up if and only if they carry no
application data: nothing of it is held back. -/
theorem locClosed_silenced_iff {es es' : List H2Event} {s s' : H2Sys}
    (h : es.foldlM h2Step h2Init = some s) (h' : es'.foldlM h2Step s = some s') {id : Nat}
    {t : TfwStream} (ht : s.h2.store.tfwH2FindStream id = some t) (hst : t.state = .locClosed) :
    (∀ t', s'.h2.store.tfwH2FindStream id = some t' →
      t'.state = .locClosed ∨ t'.state = .closed) ∧
    ((∀ f ∈ s'.h2.frames.drop s.h2.frames.length, f.isApp = true → f.hdr.streamId = id →
        f.handed = []) ↔
      ∀ f ∈ s'.h2.frames.drop s.h2.frames.length, f.isApp = true → f.hdr.streamId = id →
        f.app = []) := by
  have hran := h2Run_init h
  have hran' := h2Run_ran hran.inv h'
  refine ⟨fun t' ht' => ?_, ?_⟩
  · obtain ⟨hmem, hid⟩ := mem_of_find ht'
    exact ((WasReset.of_find hran.inv.good.inv ht hst).run hran'.store).state t' hmem hid
  · refine forall₂_congr fun f hf => ?_
    rw [(hran'.inv.mem_frames (List.mem_of_mem_drop hf)).all]

/-- A stream is opened and then reset for a WINDOW_UPDATE by zero. -/
def resetRun : List H2Event :=
  requestRun.take 1 ++
    [.recv (h2Frame 1 4 1 [0x82]) .quiet, .recv (h2Frame 8 0 1 [0, 0, 0, 0]) .quiet]

theorem locClosed_silenced_empty :
    ∃ s s', resetRun.foldlM h2Step h2Init = some s ∧
      [H2Event.recv (h2Frame 0 0 1 []) .quiet].foldlM h2Step s = some s' ∧
      s'.h2.frames.length = s.h2.frames.length + 1 ∧
      ∀ f ∈ s'.h2.frames.drop s.h2.frames.length, f.isApp = true → f.hdr.streamId = 1 →
        f.handed = [] := by
  have hrun : ((resetRun.foldlM h2Step h2Init).bind fun s =>
      ([H2Event.recv (h2Frame 0 0 1 []) .quiet].foldlM h2Step s).map fun s' => decide
        ((s.h2.store.tfwH2FindStream 1).map TfwStream.state = some .locClosed ∧
          s'.h2.frames.length = s.h2.frames.length + 1 ∧
          ∀ f ∈ s'.h2.frames.drop s.h2.frames.length, f.isApp = true → f.hdr.streamId = 1 →
            f.app = [])) = some true := by
    decide +kernel
  obtain ⟨s, hs, hrest⟩ := Option.bind_eq_some_iff.mp hrun
  obtain ⟨s', hs', heq⟩ := Option.map_eq_some_iff.mp hrest
  obtain ⟨hst, hlen, happ⟩ := of_decide_eq_true heq
  obtain ⟨t, ht, hst⟩ := Option.map_eq_some_iff.mp hst
  exact ⟨s, s', hs, hs', hlen, (locClosed_silenced_iff hs hs' ht hst).2.mpr happ⟩

/-- DATA that comes after the reset is handed up for the stream. -/
theorem locClosed_not_silenced :
    ∃ s s', resetRun.foldlM h2Step h2Init = some s ∧
      (s.h2.store.tfwH2FindStream 1).map TfwStream.state = some .locClosed ∧
      [H2Event.recv (h2Frame 0 1 1 [65]) .quiet].foldlM h2Step s = some s' ∧
      ∃ f ∈ s'.h2.frames.drop s.h2.frames.length, f.hdr.type = .data ∧ f.hdr.streamId = 1 ∧
        ∃ p ∈ f.pieces, p.stream = some 1 ∧ p.data = [65] := by
  have hrun : ((resetRun.foldlM h2Step h2Init).bind fun s =>
      ([H2Event.recv (h2Frame 0 1 1 [65]) .quiet].foldlM h2Step s).map fun s' => decide
        ((s.h2.store.tfwH2FindStream 1).map TfwStream.state = some .locClosed ∧
          ∃ f ∈ s'.h2.frames.drop s.h2.frames.length, f.hdr.type = .data ∧ f.hdr.streamId = 1 ∧
            ∃ p ∈ f.pieces, p.stream = some 1 ∧ p.data = [65])) = some true := by
    decide +kernel
  obtain ⟨s, hs, hrest⟩ := Option.bind_eq_some_iff.mp hrun
  obtain ⟨s', hs', heq⟩ := Option.map_eq_some_iff.mp hrest
  obtain ⟨hst, hdata⟩ := of_decide_eq_true heq
  exact ⟨s, s', hs, hst, hs', hdata⟩

end Tempesta.Http2
