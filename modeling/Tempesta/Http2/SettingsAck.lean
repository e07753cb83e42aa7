import Tempesta.Http2.FrameSync

/-!
Acknowledgement of SETTINGS frames. It is sent from the state that reads an entry, so
a frame without entries is never acknowledged.
-/

namespace Tempesta.Http2

def FrameRec.wantsAck (f : FrameRec) : Bool :=
  f.hdr.type == .settings && !hasFlag f.hdr.flags .ack

lemma FrameRec.Ended.wantsAck {f : FrameRec} (h : f.Ended) (hs : f.isSettings = true) :
    f.wantsAck = true := by
  rw [FrameRec.wantsAck, h.noAck hs, ((FrameRec.isSettings_iff f).mp hs).1]
  rfl

lemma countP_eq_countP_iff {α : Type*} {p q : α → Bool} (l : List α)
    (hqp : ∀ a ∈ l, q a = true → p a = true) :
    l.countP q = l.countP p ↔ ∀ a ∈ l, p a = true → q a = true := by
  induction l with
  | nil => simp
  | cons a l ih =>
    have hle : l.countP q ≤ l.countP p :=
      List.countP_mono_left fun x hx => hqp x (List.mem_cons_of_mem a hx)
    have ih := ih fun x hx => hqp x (List.mem_cons_of_mem a hx)
    have ha := hqp a List.mem_cons_self
    rw [List.countP_cons, List.countP_cons, List.forall_mem_cons, ← ih]
    cases hq : q a with
    | true =>
      rw [ha hq]
      simp
    | false =>
      cases hp : p a with
      | true =>
        simp only [Bool.false_eq_true, if_false, if_true, Nat.add_zero, forall_const, false_and,
          iff_false]
        omega
      | false => simp

/-- The acknowledgements are as many as the SETTINGS frames that want one, if and only
if none of these is empty. -/
theorem settings_acked_iff {es : List H2Event} {s : H2Sys}
    (h : es.foldlM h2Step h2Init = some s) :
    s.h2.sent.count .settingsAck = s.h2.log.countP FrameRec.wantsAck ↔
      ∀ f ∈ s.h2.log, f.wantsAck = true → f.hdr.length ≠ 0 := by
  have hinv := (h2Run_init h).inv
  have hacks : s.h2.sent.count .settingsAck = s.h2.log.countP FrameRec.isSettings := hinv.acks
  rw [hacks, countP_eq_countP_iff _ fun f hf => (hinv.ended f hf).wantsAck]
  refine forall₂_congr fun f hf => forall_congr' fun hack => ?_
  rw [FrameRec.isSettings_iff]
  refine and_iff_right ?_
  rw [FrameRec.wantsAck, Bool.and_eq_true, beq_iff_eq] at hack
  exact hack.1

theorem settings_acked_request :
    ∃ s, requestRun.foldlM h2Step h2Init = some s ∧
      s.h2.sent.count .settingsAck = s.h2.log.countP FrameRec.wantsAck := by
  have hrun : (requestRun.foldlM h2Step h2Init).map (fun s => decide
      (∀ f ∈ s.h2.log, f.wantsAck = true → f.hdr.length ≠ 0)) = some true := by
    decide +kernel
  obtain ⟨s, hs, heq⟩ := Option.map_eq_some_iff.mp hrun
  exact ⟨s, hs, (settings_acked_iff hs).mpr (of_decide_eq_true heq)⟩

def emptySettingsRun : List H2Event :=
  [.recv (framePrefaceCliMagic ++ h2Frame 4 0 0 []) .quiet]

theorem emptySettings_not_acked :
    ∃ s, emptySettingsRun.foldlM h2Step h2Init = some s ∧
      s.h2.log.countP FrameRec.wantsAck = 1 ∧ s.h2.sent.count .settingsAck = 0 := by
  have hrun : (emptySettingsRun.foldlM h2Step h2Init).map (fun s => decide
      (s.h2.log.countP FrameRec.wantsAck = 1 ∧ s.h2.sent.count .settingsAck = 0)) =
      some true := by
    decide +kernel
  obtain ⟨s, hs, heq⟩ := Option.map_eq_some_iff.mp hrun
  exact ⟨s, hs, of_decide_eq_true heq⟩

end Tempesta.Http2
