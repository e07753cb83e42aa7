import Tempesta.Hpack.DecoderTable

/-!
Streams of an HTTP/2 connection: the stream state machine `tfw_h2_stream_fsm`
and the store of the streams with the queue of closed ones. A stream is named
by its ID. The tree of the streams is kept as a list, and a pointer to a stream
as the ID; following one that is not in the store is outside the C semantics and
ends like a `BUG()`.
-/

namespace Tempesta.Http2

/-- `TfwFrameType`; `undefined` stands for all extension types. -/
inductive TfwFrameType where
  | data
  | headers
  | priority
  | rstStream
  | settings
  | pushPromise
  | ping
  | goaway
  | windowUpdate
  | continuation
  | undefined
  deriving DecidableEq, Repr

def TfwFrameType.ofByte (b : UInt8) : TfwFrameType :=
  match b.toNat with
  | 0 => data
  | 1 => headers
  | 2 => priority
  | 3 => rstStream
  | 4 => settings
  | 5 => pushPromise
  | 6 => ping
  | 7 => goaway
  | 8 => windowUpdate
  | 9 => continuation
  | _ => undefined

inductive TfwFrameFlag where
  | ack
  | endStream
  | endHeaders
  | padded
  | priority
  deriving DecidableEq, Repr

def TfwFrameFlag.mask : TfwFrameFlag → UInt8
  | ack => 0x01
  | endStream => 0x01
  | endHeaders => 0x04
  | padded => 0x08
  | priority => 0x20

def hasFlag (flags : UInt8) (f : TfwFrameFlag) : Bool :=
  flags &&& f.mask != 0

/-- The codes of `TfwH2Err` that the frame layer uses. -/
inductive TfwH2Err where
  | proto
  | closed
  | size
  | refused
  deriving DecidableEq, Repr

/-- How processing can stop: a `BUG()`, a loop without end, or `T_DROP`, with the
code of a GOAWAY frame where one is sent. -/
inductive H2Stop where
  | bug
  | hang
  | drop (goaway : Option TfwH2Err)
  deriving DecidableEq, Repr

inductive TfwStreamState where
  | locReserved
  | remReserved
  | opened
  | cont
  | contClosed
  | locClosed
  | remHalfClosed
  | remClosed
  | closed
  deriving DecidableEq, Repr

/-- Below `HTTP2_STREAM_REM_HALF_CLOSED`. -/
def TfwStreamState.beforeRemHalfClosed : TfwStreamState → Bool
  | remHalfClosed | remClosed | closed => false
  | _ => true

/-- `TfwStreamFsmRes`, with the error code that it comes with. -/
inductive TfwStreamFsmRes where
  | ok
  | termConn (err : TfwH2Err)
  | termStream (err : TfwH2Err)
  | ignore
  deriving DecidableEq, Repr

/-- `tfw_h2_stream_fsm` for a stream that is not null. -/
def tfwH2StreamFsm (state : TfwStreamState) (type : TfwFrameType) (flags : UInt8) (send : Bool) :
    Except H2Stop (TfwStreamState × TfwStreamFsmRes) :=
  if send && !hasFlag flags .endStream && type != .rstStream then .error .bug
  else if send && state.beforeRemHalfClosed && hasFlag flags .endStream then .ok (state, .ignore)
  else
    match state with
    | .locReserved => .error .bug
    | .remReserved => .error .bug
    | .opened =>
      match type with
      | .headers =>
        match hasFlag flags .endHeaders, hasFlag flags .endStream with
        | true, true => .ok (.remHalfClosed, .ok)
        | true, false => .ok (.opened, .ok)
        | false, true => .ok (.contClosed, .ok)
        | false, false => .ok (.cont, .ok)
      | .data =>
        if hasFlag flags .endStream then .ok (.remHalfClosed, .ok) else .ok (.opened, .ok)
      | .rstStream => .ok (if send then .locClosed else .closed, .ok)
      | .continuation => .ok (.opened, .termConn .proto)
      | _ => .ok (.opened, .ok)
    | .cont =>
      if send && type == .rstStream then .ok (.locClosed, .ok)
      else if type != .continuation then .ok (.cont, .termConn .proto)
      else if hasFlag flags .endHeaders then .ok (.opened, .ok)
      else .ok (.cont, .ok)
    | .contClosed =>
      if send && type == .rstStream then .ok (.locClosed, .ok)
      else if type != .continuation then .ok (.contClosed, .termConn .proto)
      else if hasFlag flags .endHeaders then .ok (.remHalfClosed, .ok)
      else .ok (.contClosed, .ok)
    | .locClosed =>
      if type == .rstStream then
        if send then .ok (.locClosed, .ignore) else .ok (.closed, .ok)
      else .ok (.locClosed, .ok)
    | .remHalfClosed =>
      if send && (type == .rstStream || hasFlag flags .endStream) then .ok (.remClosed, .ok)
      else if type == .continuation then .ok (.remHalfClosed, .termConn .proto)
      else if type == .rstStream then .ok (.closed, .ok)
      else if type != .priority && type != .windowUpdate then
        .ok (.remClosed, .termStream .closed)
      else .ok (.remHalfClosed, .ok)
    | .remClosed =>
      if type == .priority then .ok (.remClosed, .ok)
      else if type == .continuation then .ok (.remClosed, .termConn .proto)
      else .ok (.remClosed, .ignore)
    | .closed => if send then .ok (.closed, .ignore) else .error .bug

structure TfwStream where
  id : Nat
  state : TfwStreamState
  locWnd : Nat
  weight : Nat
  /-- The number of the request that the stream is linked with. -/
  msg : Option Nat
  deriving DecidableEq, Repr

/-- The part of `TfwH2Ctx` about streams: the tree, the queue of closed streams,
their counters, the last ID, and for each request the stream it is linked with. -/
structure H2Store where
  streams : List TfwStream
  streamsNum : Nat
  closed : List Nat
  closedNum : Nat
  lstreamId : Nat
  reqs : List (Option Nat)
  deriving DecidableEq, Repr

namespace H2Store

def empty : H2Store where
  streams := []
  streamsNum := 0
  closed := []
  closedNum := 0
  lstreamId := 0
  reqs := []

def tfwH2FindStream (s : H2Store) (id : Nat) : Option TfwStream :=
  s.streams.find? fun t => t.id == id

def update (s : H2Store) (id : Nat) (f : TfwStream → TfwStream) : H2Store :=
  { s with streams := s.streams.map fun t => if t.id = id then f t else t }

def setState (s : H2Store) (id : Nat) (state : TfwStreamState) : H2Store :=
  s.update id fun t => { t with state := state }

/-- `tfw_h2_add_stream`, refusing an ID that is in the tree. -/
def tfwH2AddStream (s : H2Store) (id weight wnd : Nat) : Option H2Store :=
  if (s.tfwH2FindStream id).isSome then none
  else
    let stream : TfwStream :=
      { id := id, state := .opened, locWnd := wnd
        weight := if weight ≠ 0 then weight else 16, msg := none }
    some { s with streams := s.streams ++ [stream] }

def tfwH2StreamCreate (s : H2Store) (id weight wnd : Nat) : Option H2Store :=
  (s.tfwH2AddStream id weight wnd).map fun s => { s with streamsNum := s.streamsNum + 1 }

def tfwH2StreamClean (s : H2Store) (id : Nat) : H2Store :=
  { s with
    streams := s.streams.filter fun t => t.id != id
    streamsNum := s.streamsNum - 1 }

def tfwH2StreamUnlink (s : H2Store) (stream : TfwStream) : H2Store :=
  let s :=
    if stream.id ∈ s.closed then
      { s with closed := s.closed.erase stream.id, closedNum := s.closedNum - 1 }
    else s
  match stream.msg with
  | some req => { s with reqs := s.reqs.set req none }
  | none => s

/-- Removing a stream, as in `tfw_h2_current_stream_remove`. -/
def remove (s : H2Store) (id : Nat) : Except H2Stop H2Store :=
  match s.tfwH2FindStream id with
  | none => .error .bug
  | some stream => .ok ((s.tfwH2StreamUnlink stream).tfwH2StreamClean id)

def tfwH2StreamAddClosed (s : H2Store) (id : Nat) : H2Store :=
  if id ∈ s.closed then s
  else { s with closed := s.closed ++ [id], closedNum := s.closedNum + 1 }

def tfwMaxClosedStreams : Nat := 5

/-- The loop of `tfw_h2_closed_streams_shrink`, for at most that many turns. -/
def shrinkFrom (maxStreams : Nat) : Nat → H2Store → Except H2Stop H2Store
  | 0, s => .ok s
  | n + 1, s =>
    if s.closedNum ≤ tfwMaxClosedStreams ∨ maxStreams = s.streamsNum ∧ s.closedNum ≠ 0 then .ok s
    else
      match s.closed with
      | [] => .error .bug
      | id :: _ => do shrinkFrom maxStreams n (← s.remove id)

/-- `tfw_h2_closed_streams_shrink`: each turn lowers the number of closed streams,
and at zero the loop ends. -/
def tfwH2ClosedStreamsShrink (s : H2Store) (maxStreams : Nat) : Except H2Stop H2Store :=
  shrinkFrom maxStreams s.closedNum s

def streamSendProcess (s : H2Store) (stream : Option Nat) (type : TfwFrameType) (flags : UInt8) :
    Except H2Stop (H2Store × TfwStreamFsmRes) :=
  match stream with
  | none => .ok (s, .ignore)
  | some id =>
    match s.tfwH2FindStream id with
    | none => .error .bug
    | some stream => do
        let (state, res) ← tfwH2StreamFsm stream.state type flags true
        .ok (s.setState id state, res)

end H2Store

/-- The frames for which the response side calls `tfw_h2_stream_id_close`: HEADERS
with END_STREAM, RST_STREAM, or none. -/
inductive RespFrame where
  | headers
  | rstStream
  | undefined
  deriving DecidableEq, Repr

def RespFrame.frame : RespFrame → Option (TfwFrameType × UInt8)
  | headers => some (.headers, TfwFrameFlag.endStream.mask)
  | rstStream => some (.rstStream, 0)
  | undefined => none

/-- A call of `tfw_h2_stream_id_close` for a request. -/
structure RespClose where
  req : Nat
  how : RespFrame
  deriving DecidableEq, Repr

/-- The state machine of the stream for the frame of a response. -/
def respFsm (state : TfwStreamState) (how : RespFrame) : Except H2Stop TfwStreamState :=
  match how.frame with
  | some (type, flags) => (·.1) <$> tfwH2StreamFsm state type flags true
  | none => .ok state

def H2Store.tfwH2StreamIdClose (s : H2Store) (c : RespClose) : Except H2Stop H2Store :=
  match s.reqs.getD c.req none with
  | none => .ok s
  | some id =>
    match s.tfwH2FindStream id with
    | none => .error .bug
    | some stream => do
        let state ← respFsm stream.state c.how
        let s := s.update id fun t => { t with state := state, msg := none }
        .ok (H2Store.tfwH2StreamAddClosed { s with reqs := s.reqs.set c.req none } id)

end Tempesta.Http2
