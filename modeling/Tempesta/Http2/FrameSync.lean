import Tempesta.Http2.Runs

/-!
Frame boundaries. The machine cuts the byte stream into frames one behind the other;
each begins where the lengths in front of it say, as long as no frame has padding and
nothing that it pads: `tfw_h2_frame_pad_process` then ends the frame with the padding
still in the stream.
-/

namespace Tempesta.Http2

open List FrameRec

/-- Where the frame behind `fs` begins in the byte stream. -/
def frameOffset (fs : List FrameRec) : Nat :=
  framePrefaceCliMagic.length + (fs.map fun f => frameHeaderSize + f.hdr.length).sum

lemma FrameRec.Ended.whole_length {f : FrameRec} (h : f.Ended) (hpad : ¬f.PadOnly) :
    f.payload.length = f.hdr.length :=
  h.whole.resolve_right hpad

lemma length_flatMap_bytes {fs : List FrameRec}
    (h : ∀ f ∈ fs, f.head.length = frameHeaderSize ∧ f.payload.length = f.hdr.length) :
    (framePrefaceCliMagic ++ fs.flatMap FrameRec.bytes).length = frameOffset fs := by
  rw [length_append, length_flatMap, frameOffset]
  congr 2
  apply map_congr_left
  intro f hf
  obtain ⟨hhead, hpay⟩ := h f hf
  rw [bytes, length_append, hhead, hpay]

lemma mem_of_append_concat {α : Type*} {l pre post : List α} {a b : α}
    (h : l ++ [a] = pre ++ b :: post) : ∀ x ∈ pre, x ∈ l := by
  intro x hx
  have hl : l = pre ++ (b :: post).dropLast := by
    rw [← dropLast_append_of_ne_nil (cons_ne_nil b post), ← h, dropLast_concat]
  rw [hl]
  exact mem_append_left _ hx

lemma Ran.received {es : List H2Event} {s : H2Sys} (h : Ran h2Init es s) :
    received es = s.h2.consumed ++ s.nskb := by
  rw [h.consumed]
  rfl

/-- Every frame consumes its header and its length, and every header that is read
stands behind the frames in front of it. -/
theorem frame_headers_in_sync {es : List H2Event} {s : H2Sys}
    (h : es.foldlM h2Step h2Init = some s) (hpad : ∀ f ∈ s.h2.log, ¬f.PadOnly) :
    (∀ f ∈ s.h2.log, f.head.length = frameHeaderSize ∧ f.payload.length = f.hdr.length) ∧
      ∀ pre f post, s.h2.log ++ [s.h2.cur] = pre ++ f :: post →
        f.head = ((received es).drop (frameOffset pre)).take f.head.length := by
  have hran := h2Run_init h
  have hwhole : ∀ f ∈ s.h2.log,
      f.head.length = frameHeaderSize ∧ f.payload.length = f.hdr.length :=
    fun f hf => ⟨(hran.inv.ended f hf).head, (hran.inv.ended f hf).whole_length (hpad f hf)⟩
  refine ⟨hwhole, fun pre f post hsplit => ?_⟩
  by_cases hst : s.h2.off.state = .recvCliStartSeq
  · have ha : AtStart s.h2.off s.h2.cur := by
      have hp := hran.inv.good.phase
      unfold Phase at hp
      rw [hst] at hp
      exact hp
    have hmem : f ∈ s.h2.log ++ [s.h2.cur] := hsplit ▸ mem_append_right _ mem_cons_self
    rw [hran.inv.start hst, nil_append, mem_singleton] at hmem
    rw [hmem, ha.head]
    rfl
  · have hlen := length_flatMap_bytes fun f hf => hwhole f (mem_of_append_concat hsplit f hf)
    have hbytes : s.h2.log.flatMap bytes ++ s.h2.cur.bytes =
        pre.flatMap bytes ++ (f.head ++ (f.payload ++ post.flatMap bytes)) := by
      have := congrArg (List.flatMap bytes) hsplit
      rw [flatMap_append, flatMap_append, flatMap_singleton, flatMap_cons] at this
      rw [this, bytes, append_assoc f.head]
    rw [hran.received, consumed_of_not_start _ hst, append_assoc framePrefaceCliMagic, hbytes,
      ← append_assoc framePrefaceCliMagic, append_assoc, drop_left' hlen,
      append_assoc, take_left]

/-- A request with a DATA frame of one byte and two bytes of padding, cut within the
padding. -/
def paddedRun : List H2Event :=
  requestRun.take 1 ++
    [.recv (h2Frame 1 4 1 [0x82] ++ [0, 0, 4, 0, 9, 0, 0, 0, 1, 2, 65, 0]) .quiet, .next .quiet,
      .next .quiet, .recv [0] .quiet]

theorem frame_headers_in_sync_padded :
    ∃ s, paddedRun.foldlM h2Step h2Init = some s ∧ s.h2.log.length = 3 ∧
      ∀ f ∈ s.h2.log, f.payload.length = f.hdr.length := by
  have hrun : (paddedRun.foldlM h2Step h2Init).map
      (fun s => (s.h2.log.length, decide (∀ f ∈ s.h2.log, ¬f.PadOnly))) = some (3, true) := by
    decide +kernel
  obtain ⟨s, hs, heq⟩ := Option.map_eq_some_iff.mp hrun
  obtain ⟨hlen, hpad⟩ := Prod.mk.inj heq
  exact ⟨s, hs, hlen, fun f hf =>
    ((frame_headers_in_sync hs (of_decide_eq_true hpad)).1 f hf).2⟩

def padOnlyRun : List H2Event :=
  requestRun.take 1 ++
    [.recv (h2Frame 1 4 1 [0x82]) .quiet, .recv (h2Frame 0 9 1 [2, 0, 0]) .quiet, .next .quiet]

/-- The padding is read as the header of the next frame. -/
theorem padOnly_out_of_sync :
    ∃ s, padOnlyRun.foldlM h2Step h2Init = some s ∧
      (∃ f ∈ s.h2.log, f.payload.length ≠ f.hdr.length) ∧ s.h2.cur.head = [0, 0] ∧
      s.h2.cur.head ≠
        ((received padOnlyRun).drop (frameOffset s.h2.log)).take s.h2.cur.head.length := by
  have hrun : (padOnlyRun.foldlM h2Step h2Init).map (fun s => decide
      ((∃ f ∈ s.h2.log, f.payload.length ≠ f.hdr.length) ∧ s.h2.cur.head = [0, 0] ∧
        s.h2.cur.head ≠
          ((received padOnlyRun).drop (frameOffset s.h2.log)).take s.h2.cur.head.length)) =
      some true := by
    decide +kernel
  obtain ⟨s, hs, heq⟩ := Option.map_eq_some_iff.mp hrun
  exact ⟨s, hs, of_decide_eq_true heq⟩

end Tempesta.Http2
