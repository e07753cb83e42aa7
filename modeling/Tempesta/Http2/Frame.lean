import Tempesta.Http2.Stream
import Tempesta.Lib.Iterate

/-!
The frame state machine `tfw_h2_frame_recv` with the functions that process the
parts of a frame. Sending a frame always succeeds here: where it fails the source
returns `T_DROP` and the connection ends. The length of a frame is a natural
number; the tests for a negative one come before the subtractions.

Next to what `TfwH2Ctx` holds, the model keeps the history of the connection: the
frames as the state machine has cut them out of the byte stream, with the pieces
of payload that were handed to the HTTP layer.
-/

namespace Tempesta.Http2

open Hpack (subU32)

def framePrefaceCliMagic : List UInt8 :=
  ofAscii "PRI * HTTP/2.0\r\n\r\nSM\r\n\r\n"

def frameHeaderSize : Nat := 9

def framePrioritySize : Nat := 5

def frameSettingsEntrySize : Nat := 6

def maxWndSize : Nat := 2 ^ 31 - 1

def defWndSize : Nat := 2 ^ 16 - 1

inductive TfwFrameState where
  | recvFrameHeader
  | recvCliStartSeq
  | recvFirstSettings
  | recvFramePriority
  | recvFrameWndUpdate
  | recvFramePing
  | recvFrameRstStream
  | recvFrameSettings
  | recvFrameGoaway
  | recvFramePadded
  | recvHeaderPri
  | ignoreFrameData
  | recvHeader
  | recvCont
  | recvData
  deriving DecidableEq, Repr

/-- `APP_FRAME` -/
def TfwFrameState.app : TfwFrameState → Bool
  | recvHeader | recvCont | recvData => true
  | _ => false

/-- The states that read with `FRAME_FSM_READ_SRVC`, into `rbuf`. -/
def TfwFrameState.srvc : TfwFrameState → Bool
  | recvCliStartSeq | ignoreFrameData | recvHeader | recvCont | recvData => false
  | _ => true

structure TfwFrameHdr where
  length : Nat
  streamId : Nat
  type : TfwFrameType
  flags : UInt8
  deriving DecidableEq, Repr

structure TfwFramePri where
  streamId : Nat
  weight : Nat
  exclusive : Bool
  deriving DecidableEq, Repr

def ntoh (bytes : List UInt8) : Nat :=
  bytes.foldl (fun v b => v * 256 + b.toNat) 0

def tfwH2UnpackFrameHeader (buf : List UInt8) : TfwFrameHdr where
  length := ntoh (buf.take 3)
  type := .ofByte (buf.getD 3 0)
  flags := buf.getD 4 0
  streamId := ntoh ((buf.drop 5).take 4) % 2 ^ 31

def tfwH2UnpackPriority (buf : List UInt8) : TfwFramePri where
  streamId := ntoh (buf.take 4) % 2 ^ 31
  exclusive := 128 ≤ (buf.getD 0 0).toNat
  weight := (buf.getD 4 0).toNat + 1

structure TfwSettings where
  hdrTblSz : Nat
  push : Nat
  maxStreams : Nat
  wndSz : Nat
  maxFrameSz : Nat
  maxLhdrSz : Nat
  deriving DecidableEq, Repr

/-- The frames that the frame layer sends on a connection that it keeps. -/
inductive SentFrame where
  | settings (wndSz : Nat)
  | settingsAck
  | wndUpdate (id incr : Nat)
  | ping (data : List UInt8)
  | rstStream (id : Nat) (err : TfwH2Err)
  deriving DecidableEq, Repr

/-- The part of `TfwH2Ctx` from `__off` on, which is cleared between frames. The
list of skbs is kept by its data. -/
structure FrameCtx where
  skbHead : List (List UInt8)
  curStream : Option Nat
  priority : TfwFramePri
  hdr : TfwFrameHdr
  plen : Nat
  state : TfwFrameState
  toRead : Nat
  rlen : Nat
  rbuf : List UInt8
  padlen : Nat
  dataOff : Nat
  deriving DecidableEq, Repr

def FrameCtx.zero : FrameCtx where
  skbHead := []
  curStream := none
  priority := ⟨0, 0, false⟩
  hdr := ⟨0, 0, .data, 0⟩
  plen := 0
  state := .recvFrameHeader
  toRead := 0
  rlen := 0
  rbuf := []
  padlen := 0
  dataOff := 0

def FrameCtx.setToRead (o : FrameCtx) : FrameCtx :=
  { o with toRead := o.hdr.length, hdr.length := 0 }

def FrameCtx.setToReadVerify (o : FrameCtx) (next : TfwFrameState) : FrameCtx :=
  if o.hdr.length ≠ 0 then { o.setToRead with state := next }
  else { o with toRead := 0, state := .ignoreFrameData }

/-- A call of the HTTP layer with a piece of payload: the stream, the request that
the stream is linked with then, `plen` at that time, and the data. -/
structure Upcall where
  stream : Option Nat
  req : Option Nat
  plen : Nat
  data : List UInt8
  deriving DecidableEq, Repr

/-- A frame in the history: its bytes, what it was handed up in, how much of the
payload had been read where an skb ended, and the state in which its stream was
when the header had been read. -/
structure FrameRec where
  head : List UInt8
  payload : List UInt8
  pieces : List Upcall
  cuts : List Nat
  found : Option TfwStreamState
  deriving DecidableEq, Repr

namespace FrameRec

def empty : FrameRec := ⟨[], [], [], [], none⟩

def read (f : FrameRec) (state : TfwFrameState) (bytes : List UInt8) : FrameRec :=
  match state with
  | .recvCliStartSeq => f
  | .recvFrameHeader => { f with head := f.head ++ bytes }
  | .recvFirstSettings => { f with head := f.head ++ bytes }
  | _ => { f with payload := f.payload ++ bytes }

end FrameRec

/-- `TfwH2Ctx`, the frames sent on the connection, and the history: the frames that
have ended and the one in progress. -/
structure TfwH2Ctx where
  lsettings : TfwSettings
  rsettings : TfwSettings
  locWnd : Nat
  /-- `hpack.max_window` -/
  maxWindow : Nat
  store : H2Store
  off : FrameCtx
  sent : List SentFrame
  log : List FrameRec
  cur : FrameRec
  deriving DecidableEq, Repr

def tfwH2ContextInit : TfwH2Ctx where
  lsettings := ⟨4096, 1, 0xffffffff, maxWndSize, 16384, 0xffffffff⟩
  rsettings := ⟨4096, 1, 0xffffffff, maxWndSize, 16384, 0xffffffff⟩
  locWnd := maxWndSize
  maxWindow := 4096
  store := .empty
  off := { FrameCtx.zero with state := .recvCliStartSeq }
  sent := []
  log := []
  cur := .empty

namespace TfwH2Ctx

def send (h2 : TfwH2Ctx) (f : SentFrame) : TfwH2Ctx :=
  { h2 with sent := h2.sent ++ [f] }

def setToRead (h2 : TfwH2Ctx) : TfwH2Ctx :=
  { h2 with off := h2.off.setToRead }

def setToReadVerify (h2 : TfwH2Ctx) (next : TfwFrameState) : TfwH2Ctx :=
  { h2 with off := h2.off.setToReadVerify next }

/-- `tfw_h2_stream_close` for the current stream. -/
def tfwH2StreamClose (h2 : TfwH2Ctx) (id : Nat) (err : TfwH2Err) : TfwH2Ctx :=
  let h2 :=
    match h2.off.curStream with
    | some stream =>
      { h2 with store := h2.store.tfwH2StreamAddClosed stream, off.curStream := none }
    | none => h2
  h2.send (.rstStream id err)

/-- `STREAM_RECV_PROCESS`, behind the state machine of the stream. The flag says
that the macro leaves the function with `T_OK`. -/
def streamRecvResult (h2 : TfwH2Ctx) (id : Nat) (r : TfwStreamState × TfwStreamFsmRes) :
    Except H2Stop (TfwH2Ctx × Bool) :=
  let h2 := { h2 with store := h2.store.setState id r.1 }
  match r.2 with
  | .ok => .ok (h2, false)
  | .termConn err => .error (.drop (some err))
  | .termStream err =>
    .ok ((h2.setToReadVerify .ignoreFrameData).tfwH2StreamClose h2.off.hdr.streamId err, true)
  | .ignore => .ok (h2.setToReadVerify .ignoreFrameData, true)

def streamRecvProcess (h2 : TfwH2Ctx) : Except H2Stop (TfwH2Ctx × Bool) :=
  match h2.off.curStream with
  | none => .error .bug
  | some id =>
    match h2.store.tfwH2FindStream id with
    | none => .error .bug
    | some stream =>
      tfwH2StreamFsm stream.state h2.off.hdr.type h2.off.hdr.flags false >>=
        h2.streamRecvResult id

def tfwH2RecvPriority (h2 : TfwH2Ctx) : Except H2Stop TfwH2Ctx :=
  if h2.off.hdr.length < framePrioritySize then .error (.drop (some .size))
  else
    .ok { h2 with
      off.toRead := framePrioritySize
      off.hdr.length := h2.off.hdr.length - framePrioritySize
      off.plen := h2.off.plen - framePrioritySize
      off.state := .recvHeaderPri }

def tfwH2RecvPadded (h2 : TfwH2Ctx) : Except H2Stop TfwH2Ctx :=
  if h2.off.hdr.length < 1 then .error (.drop (some .size))
  else
    .ok { h2 with
      off.toRead := 1
      off.hdr.length := h2.off.hdr.length - 1
      off.plen := h2.off.plen - 1
      off.state := .recvFramePadded }

def tfwH2HeadersPriProcess (h2 : TfwH2Ctx) : Except H2Stop TfwH2Ctx :=
  if !hasFlag h2.off.hdr.flags .priority then .error .bug
  else
    .ok (setToReadVerify { h2 with
      off.priority := tfwH2UnpackPriority h2.off.rbuf
      off.dataOff := h2.off.dataOff + framePrioritySize } .recvHeader)

def tfwH2CheckClosedStream (h2 : TfwH2Ctx) : Except H2Stop TfwH2Ctx :=
  match h2.off.curStream with
  | none => .error .bug
  | some id =>
    match h2.store.tfwH2FindStream id with
    | none => .error .bug
    | some stream =>
      if stream.state = .closed then do
        .ok { h2 with store := ← h2.store.remove id, off.curStream := none }
      else .ok h2

def tfwH2StreamStateProcess (h2 : TfwH2Ctx) : Except H2Stop TfwH2Ctx := do
  let (h2, left) ← h2.streamRecvProcess
  if left then .ok h2 else h2.tfwH2CheckClosedStream

/-- Resetting the current stream for a protocol error, unless its state machine
refuses that. -/
def resetCurStream (h2 : TfwH2Ctx) : Except H2Stop TfwH2Ctx := do
  let (store, res) ← h2.store.streamSendProcess h2.off.curStream .rstStream 0
  let h2 := { h2 with store := store }
  if res = .ok then .ok (h2.tfwH2StreamClose h2.off.hdr.streamId .proto) else .ok h2

def tfwH2HeadersProcess (h2 : TfwH2Ctx) : Except H2Stop TfwH2Ctx :=
  if h2.off.priority.streamId = h2.off.hdr.streamId then
    resetCurStream { h2 with off.state := .ignoreFrameData }
  else
    match h2.off.curStream with
    | some _ => h2.tfwH2StreamStateProcess
    | none =>
      match h2.store.tfwH2StreamCreate h2.off.hdr.streamId h2.off.priority.weight
          h2.lsettings.wndSz with
      | none => .error (.drop none)
      | some store =>
        tfwH2StreamStateProcess { h2 with
          store := { store with lstreamId := h2.off.hdr.streamId }
          off.curStream := some h2.off.hdr.streamId }

def tfwH2WndUpdateProcess (h2 : TfwH2Ctx) : Except H2Stop TfwH2Ctx :=
  if ntoh (h2.off.rbuf.take 4) % 2 ^ 31 ≠ 0 then .ok h2
  else
    match h2.off.curStream with
    | none => .error (.drop (some .proto))
    | some _ => h2.resetCurStream

def tfwH2PriorityProcess (h2 : TfwH2Ctx) : Except H2Stop TfwH2Ctx :=
  let h2 := { h2 with off.priority := tfwH2UnpackPriority h2.off.rbuf }
  if h2.off.priority.streamId ≠ h2.off.hdr.streamId then .ok h2
  else h2.resetCurStream

def tfwH2RstStreamProcess (h2 : TfwH2Ctx) : Except H2Stop TfwH2Ctx :=
  match h2.off.curStream with
  | none => .error .bug
  | some id => do .ok { h2 with store := ← h2.store.remove id, off.curStream := none }

/-- `tfw_h2_apply_settings_entry`; the encoder table is not part of this model. -/
def tfwH2ApplySettingsEntry (dest : TfwSettings) (id val : Nat) : Option TfwSettings :=
  match id with
  | 1 => some { dest with hdrTblSz := min val 4096 }
  | 2 => if 1 < val then none else some { dest with push := val }
  | 3 => some { dest with maxStreams := val }
  | 4 => if maxWndSize < val then none else some { dest with wndSz := val }
  | 5 => if val < 16384 ∨ 2 ^ 24 - 1 < val then none else some { dest with maxFrameSz := val }
  | 6 => some { dest with maxLhdrSz := val }
  | _ => some dest

def nextSettings (h2 : TfwH2Ctx) : TfwH2Ctx :=
  let toRead := if h2.off.hdr.length ≠ 0 then frameSettingsEntrySize else 0
  { h2 with off.toRead := toRead, off.hdr.length := h2.off.hdr.length - toRead }

def tfwH2SettingsProcess (h2 : TfwH2Ctx) : Except H2Stop TfwH2Ctx :=
  match tfwH2ApplySettingsEntry h2.rsettings (ntoh (h2.off.rbuf.take 2))
      (ntoh ((h2.off.rbuf.drop 2).take 4)) with
  | none => .error (.drop none)
  | some rsettings => .ok (nextSettings { h2 with rsettings := rsettings })

def unpackHeader (h2 : TfwH2Ctx) : TfwH2Ctx :=
  let hdr := tfwH2UnpackFrameHeader h2.off.rbuf
  { h2 with
    off.hdr := hdr
    cur.found := (h2.store.tfwH2FindStream hdr.streamId).map TfwStream.state }

def tfwH2FirstSettingsVerify (h2 : TfwH2Ctx) : Except H2Stop TfwH2Ctx :=
  if h2.off.toRead ≠ 0 then .error .bug
  else
    let h2 := h2.unpackHeader
    let hdr := h2.off.hdr
    if hdr.length % frameSettingsEntrySize ≠ 0 then .error (.drop (some .size))
    else if hdr.type ≠ .settings ∨ hasFlag hdr.flags .ack ∨ hdr.streamId ≠ 0 then
      .error (.drop (some .proto))
    else .ok h2.nextSettings

/-- `tfw_h2_flow_control` for the current stream. -/
def tfwH2FlowControl (h2 : TfwH2Ctx) (stream : TfwStream) : TfwH2Ctx :=
  let strWnd := subU32 stream.locWnd h2.off.hdr.length
  let connWnd := subU32 h2.locWnd h2.off.hdr.length
  let wndSz := h2.lsettings.wndSz
  let h2 :=
    if strWnd ≤ wndSz / 2 then
      { h2.send (.wndUpdate stream.id (wndSz - strWnd)) with
        store := h2.store.update stream.id fun t => { t with locWnd := wndSz } }
    else { h2 with store := h2.store.update stream.id fun t => { t with locWnd := strWnd } }
  if connWnd ≤ maxWndSize / 2 then
    { h2.send (.wndUpdate 0 (maxWndSize - connWnd)) with locWnd := maxWndSize }
  else { h2 with locWnd := connWnd }

/-- The fields that are set for all frames with application data. -/
def startApp (h2 : TfwH2Ctx) : TfwH2Ctx :=
  { h2 with off.dataOff := frameHeaderSize, off.plen := h2.off.hdr.length }

/-- The end of the HEADERS branch of `tfw_h2_frame_type_process`. -/
def headersStart (h2 : TfwH2Ctx) : Except H2Stop TfwH2Ctx :=
  let h2 := h2.startApp
  if hasFlag h2.off.hdr.flags .padded then h2.tfwH2RecvPadded
  else if hasFlag h2.off.hdr.flags .priority then h2.tfwH2RecvPriority
  else .ok (h2.setToReadVerify .recvHeader)

/-- A service frame of fixed length is read whole, unless the state machine of its
stream has left the frame to be ignored. -/
def serviceStart (next : TfwFrameState) (r : TfwH2Ctx × Bool) : TfwH2Ctx :=
  if r.2 then r.1 else { r.1.setToRead with off.state := next }

def tfwH2FrameTypeProcess (h2 : TfwH2Ctx) : Except H2Stop TfwH2Ctx :=
  let hdr := h2.off.hdr
  let found := h2.store.tfwH2FindStream hdr.streamId
  let h2f := { h2 with off.curStream := found.map TfwStream.id }
  if h2.lsettings.maxFrameSz < hdr.length then .error (.drop (some .size))
  else
    match hdr.type with
    | .data =>
      if hdr.streamId = 0 ∨ h2.store.lstreamId < hdr.streamId then .error (.drop (some .proto))
      else
        match found with
        | none => .error (.drop (some .closed))
        | some stream =>
          let h2 := (h2f.tfwH2FlowControl stream).startApp
          if hasFlag hdr.flags .padded then h2.tfwH2RecvPadded
          else .ok (h2.setToReadVerify .recvData)
    | .headers =>
      if hdr.streamId = 0 then .error (.drop (some .proto))
      else
        match found with
        | some _ => h2f.headersStart
        | none =>
          if hdr.streamId ≤ h2.store.lstreamId ∨ hdr.streamId % 2 = 0 then
            .error (.drop (some .proto))
          else do
            let store ← h2f.store.tfwH2ClosedStreamsShrink h2.lsettings.maxStreams
            let h2 := { h2f with store := store }
            if h2.lsettings.maxStreams = store.streamsNum then
              .ok ((h2.setToReadVerify .ignoreFrameData).send
                (.rstStream hdr.streamId .refused))
            else h2.headersStart
    | .priority =>
      if hdr.streamId = 0 then .error (.drop (some .proto))
      else if hdr.length ≠ framePrioritySize then .error (.drop (some .size))
      else if found.isSome then serviceStart .recvFramePriority <$> h2f.streamRecvProcess
      else .ok (serviceStart .recvFramePriority (h2f, false))
    | .windowUpdate =>
      if hdr.length ≠ 4 then .error (.drop (some .size))
      else if h2.store.lstreamId < hdr.streamId then .error (.drop (some .proto))
      else if hdr.streamId = 0 then .ok (serviceStart .recvFrameWndUpdate (h2, false))
      else if found.isNone then .error (.drop (some .closed))
      else serviceStart .recvFrameWndUpdate <$> h2f.streamRecvProcess
    | .settings =>
      if hdr.streamId ≠ 0 then .error (.drop (some .proto))
      else if hdr.length % frameSettingsEntrySize ≠ 0 ∨
          hasFlag hdr.flags .ack ∧ 0 < hdr.length then .error (.drop (some .size))
      else
        let h2 :=
          if hasFlag hdr.flags .ack then { h2 with maxWindow := h2.lsettings.hdrTblSz } else h2
        if hdr.length ≠ 0 then .ok { h2.nextSettings with off.state := .recvFrameSettings }
        else .ok { h2 with off.toRead := 0 }
    | .pushPromise => .error (.drop (some .proto))
    | .ping =>
      if hdr.streamId ≠ 0 then .error (.drop (some .proto))
      else if hdr.length ≠ 8 then .error (.drop (some .size))
      else .ok (serviceStart .recvFramePing (h2, false))
    | .rstStream =>
      if hdr.streamId = 0 then .error (.drop (some .proto))
      else if hdr.length ≠ 4 then .error (.drop (some .size))
      else if h2.store.lstreamId < hdr.streamId then .error (.drop (some .proto))
      else if found.isNone then .error (.drop (some .closed))
      else serviceStart .recvFrameRstStream <$> h2f.streamRecvProcess
    | .goaway =>
      if hdr.streamId ≠ 0 then .error (.drop (some .proto))
      else if hdr.length < 8 then .error (.drop (some .size))
      else
        .ok { h2 with
          off.state := .recvFrameGoaway
          off.toRead := 8
          off.hdr.length := hdr.length - 8 }
    | .continuation =>
      if hdr.streamId = 0 ∨ h2.store.lstreamId < hdr.streamId then .error (.drop (some .proto))
      else if found.isNone then .error (.drop (some .closed))
      else .ok (h2f.startApp.setToReadVerify .recvCont)
    | .undefined => .ok (serviceStart .ignoreFrameData (h2, false))

def tfwH2FramePadProcess (h2 : TfwH2Ctx) : Except H2Stop TfwH2Ctx :=
  let padlen := (h2.off.rbuf.getD 0 0).toNat
  if h2.off.hdr.length < padlen then .error (.drop (some .size))
  else
    let h2 := { h2 with
      off.dataOff := h2.off.dataOff + 1
      off.padlen := padlen
      off.hdr.length := h2.off.hdr.length - padlen }
    if h2.off.hdr.length = 0 then
      .ok { h2 with off.state := .ignoreFrameData, off.toRead := 0 }
    else
      match h2.off.hdr.type with
      | .data => .ok (setToRead { h2 with off.state := .recvData })
      | .headers =>
        if hasFlag h2.off.hdr.flags .priority then h2.tfwH2RecvPriority
        else .ok (setToRead { h2 with off.state := .recvHeader })
      | _ => .error .bug

/-- `FRAME_FSM_EXIT(T_OK)` in a state. -/
def fsmExit (h2 : TfwH2Ctx) (state : TfwFrameState) : TfwH2Ctx × Bool :=
  ({ h2 with off.state := state }, false)

/-- `FRAME_FSM_MOVE` -/
def fsmMove (h2 : TfwH2Ctx) (state : TfwFrameState) : TfwH2Ctx × Bool :=
  ({ h2 with off.state := state }, true)

/-- `FRAME_FSM_NEXT` if there is more to read, and the exit otherwise. -/
def fsmNext (h2 : TfwH2Ctx) (state : TfwFrameState) : TfwH2Ctx × Bool :=
  if h2.off.toRead ≠ 0 then (h2, true) else h2.fsmExit state

/-- What each state of `tfw_h2_frame_recv` does when its data has been read. The
flag says that the machine goes on, otherwise it returns `T_OK`. -/
def frameDone (h2 : TfwH2Ctx) : Except H2Stop (TfwH2Ctx × Bool) :=
  match h2.off.state with
  | .recvCliStartSeq =>
    let h2 := h2.send (.settings h2.lsettings.wndSz)
    .ok ((h2.send (.wndUpdate 0 (maxWndSize - defWndSize))).fsmMove .recvFirstSettings)
  | .recvFirstSettings => do
      let h2 ← h2.tfwH2FirstSettingsVerify
      .ok (if h2.off.toRead ≠ 0 then h2.fsmMove .recvFrameSettings
        else h2.fsmExit .recvFirstSettings)
  | .recvFrameHeader =>
    (fsmNext · .recvFrameHeader) <$> h2.unpackHeader.tfwH2FrameTypeProcess
  | .recvFramePadded => (fsmNext · .recvFramePadded) <$> h2.tfwH2FramePadProcess
  | .recvFramePriority => (fsmExit · .recvFramePriority) <$> h2.tfwH2PriorityProcess
  | .recvFrameWndUpdate => (fsmExit · .recvFrameWndUpdate) <$> h2.tfwH2WndUpdateProcess
  | .recvFramePing =>
    let h2 :=
      if hasFlag h2.off.hdr.flags .ack then h2
      else h2.send (.ping (h2.off.rbuf.take h2.off.rlen))
    .ok (h2.fsmExit .recvFramePing)
  | .recvFrameRstStream => (fsmExit · .recvFrameRstStream) <$> h2.tfwH2RstStreamProcess
  | .recvFrameSettings => do
      let h2 ← h2.tfwH2SettingsProcess
      .ok (if h2.off.toRead ≠ 0 then h2.fsmMove .recvFrameSettings
        else (h2.send .settingsAck).fsmExit .recvFrameSettings)
  | .recvFrameGoaway =>
    let h2 := h2.setToRead
    .ok (if h2.off.toRead ≠ 0 then h2.fsmMove .ignoreFrameData
      else h2.fsmExit .recvFrameGoaway)
  | .recvHeaderPri => (fsmNext · .recvHeaderPri) <$> h2.tfwH2HeadersPriProcess
  | .recvData => (fsmExit · .recvData) <$> h2.tfwH2StreamStateProcess
  | .recvHeader => (fsmExit · .recvHeader) <$> h2.tfwH2HeadersProcess
  | .recvCont => (fsmExit · .recvCont) <$> h2.tfwH2StreamStateProcess
  | .ignoreFrameData => .ok (h2.fsmExit .ignoreFrameData)

def frameToRead (o : FrameCtx) : Nat :=
  match o.state with
  | .recvCliStartSeq => 24
  | .recvFirstSettings => frameHeaderSize
  | .recvFrameHeader => frameHeaderSize
  | _ => o.toRead

/-- `FRAME_FSM_READ_LAMBDA` with the data that there is. -/
def fsmRead (h2 : TfwH2Ctx) (bytes : List UInt8) : TfwH2Ctx :=
  { h2 with
    off.rbuf := if h2.off.state.srvc then h2.off.rbuf.take h2.off.rlen ++ bytes else h2.off.rbuf
    off.rlen := h2.off.rlen + bytes.length
    cur := h2.cur.read h2.off.state bytes }

end TfwH2Ctx

/-- The machine in the middle of a buffer. -/
structure FrameRecv where
  h2 : TfwH2Ctx
  buf : List UInt8

/-- What `tfw_h2_frame_recv` returns: whether the frame is complete (`T_OK`) or
postponed, the context, and the rest of the buffer. -/
structure FrameRecvRet where
  complete : Bool
  h2 : TfwH2Ctx
  rest : List UInt8

/-- One state of `tfw_h2_frame_recv`. -/
def frameRecvStep (s : FrameRecv) : FrameRecv ⊕ Except H2Stop FrameRecvRet :=
  let o := s.h2.off
  let toRead := TfwH2Ctx.frameToRead o
  if o.state.srvc ∧ frameHeaderSize < toRead then .inr (.error .bug)
  else
    let n := min (toRead - o.rlen) s.buf.length
    let rest := s.buf.drop n
    if o.state = .recvCliStartSeq ∧ (framePrefaceCliMagic.drop o.rlen).take n ≠ s.buf.take n then
      .inr (.error (.drop none))
    else
      let h2 := s.h2.fsmRead (s.buf.take n)
      if h2.off.rlen < toRead then .inr (.ok ⟨false, h2, rest⟩)
      else
        match h2.frameDone with
        | .error e => .inr (.error e)
        | .ok (h2, more) =>
          let h2 := { h2 with off.rlen := 0 }
          if !more then .inr (.ok ⟨true, h2, rest⟩)
          else if rest = [] then .inr (.ok ⟨false, h2, []⟩)
          else .inl ⟨h2, rest⟩

/-- `tfw_h2_frame_recv`: every state takes at least one byte. -/
def tfwH2FrameRecv (h2 : TfwH2Ctx) (buf : List UInt8) : Except H2Stop FrameRecvRet :=
  (IterLib.iterate frameRecvStep (buf.length + 1) ⟨h2, buf⟩).getD (.error .hang)

end Tempesta.Http2
