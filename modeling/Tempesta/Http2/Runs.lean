import Tempesta.Http2.Turn

/-!
Runs of a connection: the frame machine and the response side in any order. The
store stays consistent, and no run reaches a `BUG()`.
-/

namespace Tempesta.Http2

open PostLib TfwH2Ctx

/-- What a run from one state to another does. -/
structure Ran (s : H2Sys) (es : List H2Event) (s' : H2Sys) : Prop where
  inv : ConnInv s'.h2
  consumed : s'.h2.consumed ++ s'.nskb = s.h2.consumed ++ s.nskb ++ received es
  store : StoreRun s.h2.store s'.h2.store
  log : ∃ fs, s'.h2.log = s.h2.log ++ fs

variable {h2 : TfwH2Ctx} {e : H2Event} {s s' : H2Sys} {es : List H2Event}

lemma ConnInv.close (hi : ConnInv h2) (c : RespClose) :
    ∃ store, h2.store.tfwH2StreamIdClose c = .ok store ∧ ConnInv { h2 with store := store } ∧
      StoreRun h2.store store := by
  obtain ⟨store, hs, hinv, hl⟩ := hi.good.inv.idClose_later c
  exact ⟨store, hs, ⟨hi.good.later hinv hl, hi.room, hi.start, hi.ended, hi.acks,
    hi.cut, hi.atCut⟩, hl.run⟩

lemma h2Exec_spec (hi : ConnInv s.h2) (he : e.Enabled s) :
    Post H2Stop.IsDrop (Ran s [e]) (h2Exec s e) := by
  cases e with
  | recv skb reply =>
    obtain ⟨hnil, hne⟩ := he
    refine (frameProcess_spec hi hne reply).mono fun s' h => ⟨h.inv, ?_, h.store, h.log⟩
    rw [h.consumed, hnil, List.append_nil]
    exact congrArg (s.h2.consumed ++ ·) (List.append_nil skb).symm
  | next reply =>
    refine (frameProcess_spec hi he reply).mono fun s' h => ⟨h.inv, ?_, h.store, h.log⟩
    rw [h.consumed]
    exact (List.append_nil _).symm
  | close c =>
    obtain ⟨store, hs, hinv, hrun⟩ := hi.close c
    simp only [h2Exec, hs]
    exact ⟨hinv, (List.append_nil _).symm, hrun, [], (List.append_nil _).symm⟩

lemma h2Step_ran (hi : ConnInv s.h2) (h : h2Step s e = some s') : Ran s [e] s' := by
  unfold h2Step at h
  by_cases he : e.Enabled s
  · rw [if_pos he] at h
    have hspec := h2Exec_spec hi he
    cases hx : h2Exec s e with
    | error stop =>
      rw [hx] at h
      cases h
    | ok s₁ =>
      rw [hx] at h hspec
      cases h
      exact hspec
  · rw [if_neg he] at h
    cases h

lemma h2Run_ran (hi : ConnInv s.h2) (h : es.foldlM h2Step s = some s') : Ran s es s' := by
  induction es generalizing s with
  | nil =>
    cases h
    exact ⟨hi, (List.append_nil _).symm, .refl, [], (List.append_nil _).symm⟩
  | cons e es ih =>
    rw [List.foldlM_cons] at h
    obtain ⟨s₁, hs, hrest⟩ := Option.bind_eq_some_iff.mp h
    have h₁ := h2Step_ran hi hs
    have h₂ := ih h₁.inv hrest
    obtain ⟨fs₁, hlog₁⟩ := h₁.log
    obtain ⟨fs₂, hlog₂⟩ := h₂.log
    refine ⟨h₂.inv, ?_, h₁.store.trans h₂.store, fs₁ ++ fs₂, ?_⟩
    · rw [h₂.consumed, h₁.consumed, List.append_assoc]
      exact congrArg (s.h2.consumed ++ s.nskb ++ ·) (List.flatMap_append ..).symm
    · rw [hlog₂, hlog₁, List.append_assoc]

lemma h2Run_init (h : es.foldlM h2Step h2Init = some s) : Ran h2Init es s :=
  h2Run_ran .init h

/-- Over any interleaving of received data and closings the counters are exact, the
closed streams and the current one are in the tree, only the stream of a RST_STREAM
frame is closed, and the next step does not stop at a `BUG()`. -/
theorem stream_store_consistent {es : List H2Event} {s : H2Sys}
    (h : es.foldlM h2Step h2Init = some s) :
    s.h2.store.streamsNum = s.h2.store.streams.length ∧
      s.h2.store.closedNum = s.h2.store.closed.length ∧
      (∀ id ∈ s.h2.store.closed, ∃ t, s.h2.store.tfwH2FindStream id = some t) ∧
      (∀ id, s.h2.off.curStream = some id → ∃ t, s.h2.store.tfwH2FindStream id = some t) ∧
      (∀ t ∈ s.h2.store.streams, t.state = .closed →
        s.h2.off.state = .recvFrameRstStream ∧ s.h2.off.curStream = some t.id) ∧
      ∀ e : H2Event, e.Enabled s → h2Exec s e ≠ .error .bug ∧ h2Exec s e ≠ .error .hang := by
  have hi := (h2Run_init h).inv
  have hinv := hi.good.inv
  refine ⟨hinv.num, hinv.closedNum, ?_, ?_, hi.good.closed, ?_⟩
  · exact fun id hid => H2Store.exists_find (hinv.closedMem id hid)
  · exact fun id hid => H2Store.exists_find (hi.good.mem id hid).2
  · intro e he
    have hspec := h2Exec_spec hi he
    exact ⟨fun hx => hspec.of_error hx, fun hx => hspec.of_error hx⟩

/-- A frame on a stream below 256 with a payload of less than 256 bytes. -/
def h2Frame (type flags id : UInt8) (payload : List UInt8) : List UInt8 :=
  [0, 0, .ofNat payload.length, type, flags, 0, 0, 0, id] ++ payload

def HttpReply.quiet : HttpReply := ⟨[], false⟩

/-- The preface, SETTINGS with one entry, and a request of one HEADERS frame. -/
def requestRun : List H2Event :=
  [.recv (framePrefaceCliMagic ++ h2Frame 4 0 0 [0, 3, 0, 0, 0, 100]) .quiet,
    .recv (h2Frame 1 5 1 [0x82]) .quiet]

/-- Two more requests, a RST_STREAM for the first of them, and the response to the request
before them. -/
def closingRun : List H2Event :=
  requestRun ++ [.recv (h2Frame 1 5 3 [0x82]) .quiet, .recv (h2Frame 1 5 5 [0x82]) .quiet,
    .recv (h2Frame 3 0 3 [0, 0, 0, 8]) .quiet, .close ⟨0, .headers⟩]

theorem stream_store_consistent_closing :
    ∃ s, closingRun.foldlM h2Step h2Init = some s ∧ s.h2.store.streams.length = 2 ∧
      s.h2.store.closed.length = 1 := by
  have hnum : (closingRun.foldlM h2Step h2Init).map
      (fun s => (s.h2.store.streamsNum, s.h2.store.closedNum)) = some (2, 1) := by
    decide +kernel
  obtain ⟨s, hs, hpair⟩ := Option.map_eq_some_iff.mp hnum
  obtain ⟨hstreams, hclosed, -⟩ := stream_store_consistent hs
  exact ⟨s, hs, hstreams ▸ congrArg Prod.fst hpair, hclosed ▸ congrArg Prod.snd hpair⟩

end Tempesta.Http2
