import Tempesta.Lib.Window

/-!
The rate limits of a client: new connections, requests and TLS handshakes, counted in a
history of `FRANG_FREQ` slots that the three share.
-/

namespace Tempesta.Frang

open WindowLib

abbrev frangFreq : Nat := 8

instance : NeZero frangFreq := ⟨by decide⟩

structure FrangRates where
  ts : Nat
  connNew : Nat
  req : Nat
  tlsSessNew : Nat
  tlsSessIncomplete : Nat
  deriving DecidableEq, Repr

/-- `FrangAcc`, but for the response codes -/
structure FrangAcc where
  connCurr : Nat
  history : Fin frangFreq → FrangRates

/-- The limits of `FrangGlobCfg`; 0 stands for none -/
structure FrangGlobCfg where
  connMax : Nat
  connBurst : Nat
  connRate : Nat
  reqBurst : Nat
  reqRate : Nat
  tlsNewConnRate : Nat
  tlsNewConnBurst : Nat
  tlsIncompleteConnRate : Nat
  deriving DecidableEq, Repr

/-- `TTLS_HS_CB_FINISHED_NEW` to `TTLS_HS_CB_INCOMPLETE`, and other values -/
inductive HsState where
  | finishedNew
  | finishedResumed
  | incomplete
  | unknown
  deriving DecidableEq, Repr

/-- The limits by their messages -/
inductive Limit where
  | connMax
  | connBurst
  | connRate
  | reqBurst
  | reqRate
  | tlsNewConnRate
  | tlsNewConnBurst
  | tlsIncompleteConnRate
  | unknownTlsState
  deriving DecidableEq, Repr

/-- `TFW_PASS`, or `TFW_BLOCK` with the message -/
inductive Verdict where
  | pass
  | block (limit : Limit)
  deriving DecidableEq, Repr

/-- `ra->history[i] = rates` -/
def FrangAcc.setRates (ra : FrangAcc) (i : Fin frangFreq) (rates : FrangRates) : FrangAcc :=
  { ra with history := Function.update ra.history i rates }

def exceeds (limit value : Nat) : Bool := limit != 0 && decide (limit < value)

def collect (inFrame : Nat → Bool) (counter : FrangRates → Nat) (ra : FrangAcc) : Nat :=
  ∑ i, if inFrame (ra.history i).ts then counter (ra.history i) else 0

/-- The slot of `ts`, set to zero if it belongs to another time -/
def clearSlot (ra : FrangAcc) (ts : Nat) : FrangRates :=
  let rates := ra.history (slotOf frangFreq ts)
  if rates.ts = ts then rates else ⟨ts, 0, 0, 0, 0⟩

def frangConnLimit (conf : FrangGlobCfg) (ts : Nat) (ra : FrangAcc) : FrangAcc × Verdict :=
  let rates := clearSlot ra ts
  let rates := { rates with connNew := (rates.connNew + 1) % 2 ^ 32 }
  let ra := { ra with connCurr := (ra.connCurr + 1) % 2 ^ 32 }.setRates (slotOf frangFreq ts) rates
  if exceeds conf.connMax ra.connCurr then (ra, .block .connMax)
  else if exceeds conf.connBurst rates.connNew then (ra, .block .connBurst)
  else
    let csum := collect (fun t => decide (ts ≤ t + frangFreq)) FrangRates.connNew ra % 2 ^ 32
    if exceeds conf.connRate csum then (ra, .block .connRate) else (ra, .pass)

/-- `frang_conn_close`, with its `BUG_ON` -/
def frangConnClose (ra : FrangAcc) : Option FrangAcc :=
  if ra.connCurr = 0 then none else some { ra with connCurr := ra.connCurr - 1 }

def frangTimeInFrame (tcur tprev : Nat) : Bool := decide (tcur < tprev + frangFreq)

/-- The slot of `ts` as a request clears it -/
def clearSlotReq (ra : FrangAcc) (ts : Nat) : FrangRates :=
  let rates := ra.history (slotOf frangFreq ts)
  if rates.ts = ts then rates else { rates with ts := ts, connNew := 0, req := 0 }

def frangReqLimit (conf : FrangGlobCfg) (ts : Nat) (ra : FrangAcc) : FrangAcc × Verdict :=
  if conf.reqBurst = 0 ∧ conf.reqRate = 0 then (ra, .pass)
  else
    let rates := clearSlotReq ra ts
    let rates := { rates with req := (rates.req + 1) % 2 ^ 32 }
    let ra := ra.setRates (slotOf frangFreq ts) rates
    if exceeds conf.reqBurst rates.req then (ra, .block .reqBurst)
    else
      let rsum := collect (frangTimeInFrame ts) FrangRates.req ra % 2 ^ 32
      if exceeds conf.reqRate rsum then (ra, .block .reqRate) else (ra, .pass)

def frangTlsConnLimit (conf : FrangGlobCfg) (ts : Nat) (hsState : HsState) (ra : FrangAcc) :
    FrangAcc × Verdict :=
  let rates := clearSlot ra ts
  let i := slotOf frangFreq ts
  match hsState with
  | .finishedNew =>
    let ra := ra.setRates i { rates with tlsSessNew := (rates.tlsSessNew + 1) % 2 ^ 32 }
    let sumNew :=
      collect (fun t => decide (ts ≤ t + frangFreq)) FrangRates.tlsSessNew ra % 2 ^ 64
    if exceeds conf.tlsNewConnRate sumNew then (ra, .block .tlsNewConnRate)
    else if exceeds conf.tlsNewConnBurst sumNew then (ra, .block .tlsNewConnBurst)
    else (ra, .pass)
  | .finishedResumed => (ra.setRates i rates, .pass)
  | .incomplete =>
    let ra := ra.setRates i
      { rates with tlsSessIncomplete := (rates.tlsSessIncomplete + 1) % 2 ^ 32 }
    let sumIncomplete :=
      collect (fun t => decide (ts ≤ t + frangFreq)) FrangRates.tlsSessIncomplete ra % 2 ^ 64
    if exceeds conf.tlsIncompleteConnRate sumIncomplete then (ra, .block .tlsIncompleteConnRate)
    else (ra, .pass)
  | .unknown => (ra.setRates i rates, .block .unknownTlsState)

/-- What happens to a client -/
inductive FrangCall where
  | connLimit
  | connClose
  | reqLimit
  | tlsConnLimit (hsState : HsState)
  deriving DecidableEq, Repr

structure FrangEvent where
  jiffies : Nat
  call : FrangCall
  deriving DecidableEq, Repr

section run
variable (conf : FrangGlobCfg) (hz : Nat)

/-- `jiffies * FRANG_FREQ / HZ` -/
def FrangEvent.ts (e : FrangEvent) : Nat := e.jiffies * frangFreq / hz

def frangStep (ra : FrangAcc) (e : FrangEvent) : Option (FrangAcc × Verdict) :=
  match e.call with
  | .connLimit => some (frangConnLimit conf (e.ts hz) ra)
  | .connClose => (frangConnClose ra).map fun ra => (ra, .pass)
  | .reqLimit => some (frangReqLimit conf (e.ts hz) ra)
  | .tlsConnLimit hsState => some (frangTlsConnLimit conf (e.ts hz) hsState ra)

/-- A new client, `bzero_fast` of `class_prvt` -/
def newClient : FrangAcc := ⟨0, fun _ => ⟨0, 0, 0, 0, 0⟩⟩

def frangRun (es : List FrangEvent) : Option FrangAcc :=
  es.foldlM (fun ra e => (frangStep conf hz ra e).map Prod.fst) newClient

end run

def TimeOrdered (es : List FrangEvent) : Prop := es.Pairwise fun a b => a.jiffies ≤ b.jiffies

instance (es : List FrangEvent) : Decidable (TimeOrdered es) :=
  inferInstanceAs (Decidable (es.Pairwise fun a b => a.jiffies ≤ b.jiffies))

/-- The events that are counted -/
inductive Kind where
  | conn
  | req
  | tlsNew
  | tlsIncomplete
  deriving DecidableEq, Repr

def Kind.counter : Kind → FrangRates → Nat
  | .conn => FrangRates.connNew
  | .req => FrangRates.req
  | .tlsNew => FrangRates.tlsSessNew
  | .tlsIncomplete => FrangRates.tlsSessIncomplete

def Kind.hit : Kind → FrangCall → Bool
  | .conn, .connLimit => true
  | .req, .reqLimit => true
  | .tlsNew, .tlsConnLimit .finishedNew => true
  | .tlsIncomplete, .tlsConnLimit .incomplete => true
  | _, _ => false

/-- The events of a kind in the tick `now` -/
def current (hz : Nat) (k : Kind) (es : List FrangEvent) (now : Nat) : Nat :=
  es.countP fun e => k.hit e.call && e.ts hz == now

/-- The events of a kind in the last `FRANG_FREQ` ticks -/
def recent (hz : Nat) (k : Kind) (es : List FrangEvent) (now : Nat) : Nat :=
  es.countP fun e => k.hit e.call && decide (now < e.ts hz + frangFreq)

end Tempesta.Frang
