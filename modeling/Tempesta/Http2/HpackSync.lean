import Tempesta.Http2.Delivery
import Tempesta.Hpack.Decode

/-!
The decoder's table and the header blocks of the connection. `tfw_hpack_decode` is
called for the pieces of HEADERS and CONTINUATION frames that reach a request. A
piece that is handed up without a stream is not decoded, and the connection goes on:
from then on the table is not that of the peer.
-/

namespace Tempesta.Http2

open List Hpack TfwH2Ctx

def FrameRec.isHdrs (f : FrameRec) : Bool :=
  f.hdr.type == .headers || f.hdr.type == .continuation

/-- The decoder of a connection, with what it keeps in the requests. Fragments that
reach no request stand under `none`. -/
structure HpackConn where
  ctx : HpackCtx
  reqs : Option Nat → HpackReq

abbrev HpackCall := Option Nat × List UInt8

namespace HpackConn

def init : HpackConn := ⟨hpackCtxInit 4096, fun _ => .init⟩

/-- A call of `tfw_hpack_decode` after which the connection goes on. -/
def decode (env : HpackEnv) (d : HpackConn) (call : HpackCall) : Option HpackConn :=
  match tfwHpackDecode env d.ctx (d.reqs call.1) call.2 with
  | .ok r =>
    if r.ret = .ok ∨ r.ret = .postpone then
      some ⟨r.ctx, fun i => if i = call.1 then r.req else d.reqs i⟩
    else none
  | .error _ => none

def decodeAll (env : HpackEnv) (calls : List HpackCall) : Option HpackConn :=
  calls.foldlM (decode env) init

end HpackConn

def Upcall.hpackCall (p : Upcall) : HpackCall := (p.req, p.data)

/-- The calls of `tfw_hpack_decode` on the connection. -/
def TfwH2Ctx.hpackCalls (h2 : TfwH2Ctx) : List HpackCall :=
  (h2.frames.filter FrameRec.isHdrs).flatMap fun f =>
    (f.pieces.filter (·.stream.isSome)).map Upcall.hpackCall

/-- The header block fragments of frames, in the parts that they arrived in. -/
def fragmentParts (fs : List FrameRec) : List HpackCall :=
  (fs.filter FrameRec.isHdrs).flatMap fun f => f.pieces.map Upcall.hpackCall

def fragments (fs : List FrameRec) : List HpackCall :=
  (fs.filter FrameRec.isHdrs).flatMap fun f =>
    if f.app = [] then [] else [(f.pieces.head?.bind Upcall.req, f.app)]

def FrameRec.CutInside (f : FrameRec) : Prop :=
  ∃ c ∈ f.cuts, f.fieldsLen < c ∧ c < f.fieldsLen + f.appLen

instance (f : FrameRec) : Decidable f.CutInside := by
  unfold FrameRec.CutInside
  infer_instance

variable {f : FrameRec} {s : H2Sys} {es : List H2Event} {h2 : TfwH2Ctx}

lemma FrameRec.Passed.pieces_nil (h : f.Passed) (happ : f.app = []) : f.pieces = [] := by
  have hall := h.all
  rw [happ, FrameRec.handed, flatMap_eq_nil_iff] at hall
  cases hp : f.pieces with
  | nil => rfl
  | cons p ps =>
    have hmem : p ∈ f.pieces := hp ▸ mem_cons_self
    exact absurd (hall p hmem) (h.pieces p hmem).data

lemma FrameRec.Passed.pieces_stream (h : f.Passed) (hok : ¬f.Lost) :
    f.pieces.filter (·.stream.isSome) = f.pieces := by
  rw [filter_eq_self]
  intro p hp
  rcases (h.pieces p hp).stream with hs | ⟨-, hlost⟩
  · rw [hs]
    rfl
  · exact absurd hlost hok

lemma FrameRec.Passed.pieces_whole (h : f.Passed) (hcut : f.PiecesCut) (hin : ¬f.CutInside) :
    f.pieces.map Upcall.hpackCall =
      if f.app = [] then [] else [(f.pieces.head?.bind Upcall.req, f.app)] := by
  by_cases happ : f.app = []
  · rw [if_pos happ, h.pieces_nil happ]
    rfl
  rw [if_neg happ]
  have hall := h.all
  unfold FrameRec.handed at hall
  cases hp : f.pieces with
  | nil =>
    rw [hp] at hall
    exact absurd hall.symm happ
  | cons p ps =>
    cases ps with
    | nil =>
      rw [hp, flatMap_singleton] at hall
      rw [← hall]
      rfl
    | cons p' ps =>
      have hne := (h.pieces p (hp ▸ mem_cons_self)).data
      have hne' := (h.pieces p' (hp ▸ mem_cons_of_mem p mem_cons_self)).data
      have hfirst := hcut 1 Nat.one_pos (by rw [hp]; exact Nat.succ_lt_succ (Nat.succ_pos _))
      rw [hp, take_succ_cons, take_zero, flatMap_singleton] at hfirst
      refine absurd ⟨_, hfirst, ?_, ?_⟩ hin
      · have := length_pos_of_ne_nil hne
        omega
      · have hlen := congrArg List.length hall
        have hle := f.app_length_le
        rw [hp, flatMap_cons, flatMap_cons, length_append,
          length_append] at hlen
        have := length_pos_of_ne_nil hne'
        omega

lemma ConnInv.hpackCalls_log (hi : ConnInv h2) (hcur : h2.cur.isHdrs = true → h2.cur.app = []) :
    h2.hpackCalls = (h2.log.filter FrameRec.isHdrs).flatMap fun f =>
      (f.pieces.filter (·.stream.isSome)).map Upcall.hpackCall := by
  unfold hpackCalls frames
  by_cases hhead : h2.cur.head.length = frameHeaderSize
  · rw [if_pos hhead, filter_append, flatMap_append]
    cases hh : h2.cur.isHdrs with
    | false => rw [filter_singleton, hh, cond_false, flatMap_nil, append_nil]
    | true =>
      rw [filter_singleton, hh, cond_true, flatMap_singleton,
        hi.good.passed.pieces_nil (hcur hh), filter_nil, map_nil, append_nil]
  · rw [if_neg hhead]

lemma ConnInv.hpackCalls_parts (hi : ConnInv h2) (hcur : h2.cur.isHdrs = true → h2.cur.app = [])
    (hok : ∀ f ∈ h2.log, f.isHdrs = true → ¬f.Lost) : h2.hpackCalls = fragmentParts h2.log := by
  rw [hi.hpackCalls_log hcur, fragmentParts]
  apply flatMap_congr
  intro f hf
  obtain ⟨hmem, hhdrs⟩ := mem_filter.mp hf
  rw [(hi.ended f hmem).passed.pieces_stream (hok f hmem hhdrs)]

lemma ConnInv.fragmentParts_whole (hi : ConnInv h2)
    (hin : ∀ f ∈ h2.log, f.isHdrs = true → ¬f.CutInside) :
    fragmentParts h2.log = fragments h2.log := by
  unfold fragmentParts fragments
  apply flatMap_congr
  intro f hf
  obtain ⟨hmem, hhdrs⟩ := mem_filter.mp hf
  exact (hi.ended f hmem).passed.pieces_whole (hi.ended f hmem).cut (hin f hmem hhdrs)

lemma log_bytes_received (h : Ran h2Init es s) :
    s.h2.log.flatMap FrameRec.bytes <+: (received es).drop framePrefaceCliMagic.length := by
  rw [h.received]
  by_cases hst : s.h2.off.state = .recvCliStartSeq
  · rw [h.inv.start hst]
    exact nil_prefix
  · rw [consumed_of_not_start _ hst, append_assoc, append_assoc, drop_left]
    exact prefix_append _ _

/-- `:method: GET`, `:path: /`, `:scheme: https`, and `a: b` with indexing. -/
def indexingBlock : List UInt8 := [0x82, 0x84, 0x87, 0x40, 1, 97, 1, 98]

def indexingRun : List H2Event :=
  requestRun.take 1 ++ [.recv (h2Frame 1 5 1 indexingBlock) .quiet]

/-- The same block on a stream that the peer has ended. -/
def halfClosedRun : List H2Event :=
  requestRun.take 1 ++
    [.recv (h2Frame 1 5 1 [0x82, 0x84, 0x87]) .quiet, .recv (h2Frame 1 5 1 indexingBlock) .quiet]

end Tempesta.Http2
