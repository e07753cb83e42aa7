import Tempesta.Http2.Frame
import Tempesta.Lib.Run

/-!
`tfw_h2_frame_process` and the runs of a connection. The function loops over the
frames that begin in an skb; a step of a run is one turn of the loop. Between any
two steps, and while the HTTP layer works on a piece of payload, the response side
may close streams. What the HTTP layer answers is an input of the step.
-/

namespace Tempesta.Http2

/-- What the HTTP layer does in one call: the responses that it closes streams for,
and whether it returns `T_DROP`. -/
structure HttpReply where
  closings : List RespClose
  block : Bool
  deriving DecidableEq, Repr

namespace TfwH2Ctx

/-- `tfw_http_msg_process_generic`. Without a stream it returns an error that
`tfw_h2_frame_process` does not stop at. -/
def tfwHttpMsgProcessGeneric (h2 : TfwH2Ctx) (data : List UInt8) (reply : HttpReply) :
    Except H2Stop TfwH2Ctx :=
  match h2.off.curStream with
  | none => .ok { h2 with cur.pieces := h2.cur.pieces ++ [⟨none, none, h2.off.plen, data⟩] }
  | some id =>
    match h2.store.tfwH2FindStream id with
    | none => .error .bug
    | some stream =>
      if reply.block then .error (.drop none)
      else do
        let req := stream.msg.getD h2.store.reqs.length
        let linked :=
          if stream.msg.isSome then h2.store
          else
            { h2.store.update id fun t => { t with msg := some req } with
              reqs := h2.store.reqs ++ [some id] }
        let store ← reply.closings.foldlM H2Store.tfwH2StreamIdClose linked
        .ok { h2 with
          store := store
          cur.pieces := h2.cur.pieces ++ [⟨some id, some req, h2.off.plen, data⟩] }

/-- The context is cleared and the frame in progress goes to the history. -/
def clearOff (h2 : TfwH2Ctx) : TfwH2Ctx :=
  { h2 with off := .zero, log := h2.log ++ [h2.cur], cur := .empty }

def tfwH2ContextReinit (h2 : TfwH2Ctx) (postponed : Bool) : TfwH2Ctx :=
  if !h2.off.state.app || !postponed && h2.off.padlen == 0 then h2.clearOff
  else if !postponed then
    { h2 with off.state := .ignoreFrameData, off.toRead := h2.off.padlen, off.padlen := 0 }
  else h2

end TfwH2Ctx

/-- The loop that frees the skbs in front of the application data. -/
def dequeue : Nat → List (List UInt8) → Nat × List (List UInt8)
  | off, [] => (off, [])
  | off, skb :: queue =>
    if skb.length ≤ off then dequeue (off - skb.length) queue else (off, skb :: queue)

/-- A connection with the rest of the skb in `tfw_h2_frame_process`. -/
structure H2Sys where
  h2 : TfwH2Ctx
  nskb : List UInt8
  deriving DecidableEq, Repr

/-- The part of `tfw_h2_frame_process` for application frames. -/
def deliver (h2 : TfwH2Ctx) (rest : List UInt8) (postponed : Bool) (reply : HttpReply) :
    Except H2Stop H2Sys :=
  match dequeue h2.off.dataOff h2.off.skbHead with
  | (dataOff, []) => .ok ⟨{ h2 with off.dataOff := dataOff, off.skbHead := [] }, []⟩
  | (dataOff, skb :: _) => do
      let h2 := { h2 with off.dataOff := 0, off.skbHead := [] }
      let h2 ← h2.tfwHttpMsgProcessGeneric (skb.drop dataOff) reply
      .ok ⟨h2.tfwH2ContextReinit postponed, rest⟩

/-- One turn of the loop in `tfw_h2_frame_process`. -/
def frameProcess (h2 : TfwH2Ctx) (skb : List UInt8) (reply : HttpReply) :
    Except H2Stop H2Sys := do
  let r ← tfwH2FrameRecv h2 skb
  let parsed := skb.take (skb.length - r.rest.length)
  let h2 := { r.h2 with
    off.skbHead := r.h2.off.skbHead ++ [parsed]
    cur.cuts := if r.rest = [] then r.h2.cur.cuts ++ [r.h2.cur.payload.length]
      else r.h2.cur.cuts }
  if h2.off.state.app then deliver h2 r.rest (!r.complete) reply
  else if r.complete then
    .ok ⟨TfwH2Ctx.tfwH2ContextReinit { h2 with off.skbHead := [] } false, r.rest⟩
  else .ok ⟨h2, []⟩

inductive H2Event where
  /-- `tfw_h2_frame_process` is called with an skb. -/
  | recv (skb : List UInt8) (reply : HttpReply)
  /-- The next turn of its loop, with the rest of the skb. -/
  | next (reply : HttpReply)
  /-- `tfw_h2_stream_id_close` -/
  | close (c : RespClose)
  deriving DecidableEq, Repr

/-- The steps that can be taken: an skb is not empty, and is processed to its end
before the next one. -/
def H2Event.Enabled (s : H2Sys) : H2Event → Prop
  | recv skb _ => s.nskb = [] ∧ skb ≠ []
  | next _ => s.nskb ≠ []
  | close _ => True

instance (s : H2Sys) (e : H2Event) : Decidable (e.Enabled s) := by
  cases e <;> unfold H2Event.Enabled <;> infer_instance

def h2Exec (s : H2Sys) : H2Event → Except H2Stop H2Sys
  | .recv skb reply => frameProcess s.h2 skb reply
  | .next reply => frameProcess s.h2 s.nskb reply
  | .close c => do .ok { s with h2.store := ← s.h2.store.tfwH2StreamIdClose c }

def h2Step (s : H2Sys) (e : H2Event) : Option H2Sys :=
  if e.Enabled s then (h2Exec s e).toOption else none

def h2Init : H2Sys := ⟨tfwH2ContextInit, []⟩

def received (es : List H2Event) : List UInt8 :=
  es.flatMap fun
    | .recv skb _ => skb
    | _ => []

end Tempesta.Http2
