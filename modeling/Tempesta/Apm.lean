import Tempesta.Lib.Iterate
import Tempesta.Lib.Sweep

/-!
The response time statistics of a server: four ranges of sixteen buckets each,
widened and moved to where the hits fall, and the percentiles read off a ring
buffer of such ranges. A failed `BUG_ON` and a write outside of a row are `none`.
-/

namespace Tempesta.Apm

open SweepLib IterLib

/-- A value kept in an `unsigned int`. -/
def uint (n : Nat) : Nat := n % 2 ^ 32

/-- A value kept in an `unsigned long`. -/
def ulong (n : Nat) : Nat := n % 2 ^ 64

variable {n r : Nat} {row : Nat → Nat}

lemma uint_of_lt (h : n < 2 ^ 32) : uint n = n := Nat.mod_eq_of_lt h

lemma ulong_of_lt (h : n < 2 ^ 64) : ulong n = n := Nat.mod_eq_of_lt h

/-- `TFW_STATS_RSPAN_UL`. -/
def statsRspan (order : Nat) : Nat := 15 * 2 ^ order

structure TfwPcntCtl where
  order : Nat
  begin : Nat
  end_ : Nat
deriving DecidableEq, Repr

/-- Ranges are numbered from 0 to 3 and the buckets of a range from 0 to 15. -/
structure TfwPcntRanges where
  ctl : Nat → TfwPcntCtl
  totCnt : Nat
  totVal : Nat
  minVal : Nat
  maxVal : Nat
  cnt : Nat → Nat → Nat

namespace TfwPcntRanges

def setCtl (rng : TfwPcntRanges) (r : Nat) (pc : TfwPcntCtl) : TfwPcntRanges :=
  { rng with ctl := Function.update rng.ctl r pc }

def setCnt (rng : TfwPcntRanges) (r : Nat) (row : Nat → Nat) : TfwPcntRanges :=
  { rng with cnt := Function.update rng.cnt r row }

variable {rng : TfwPcntRanges} {pc : TfwPcntCtl}

@[simp] lemma setCtl_ctl : (rng.setCtl r pc).ctl = Function.update rng.ctl r pc := rfl

@[simp] lemma setCtl_cnt : (rng.setCtl r pc).cnt = rng.cnt := rfl

@[simp] lemma setCtl_totCnt : (rng.setCtl r pc).totCnt = rng.totCnt := rfl

@[simp] lemma setCnt_ctl : (rng.setCnt r row).ctl = rng.ctl := rfl

@[simp] lemma setCnt_cnt : (rng.setCnt r row).cnt = Function.update rng.cnt r row := rfl

@[simp] lemma setCnt_totCnt : (rng.setCnt r row).totCnt = rng.totCnt := rfl

end TfwPcntRanges

/-- The bucket `__rng` takes a response time to. -/
def rngIdx (pc : TfwPcntCtl) (rTime : Nat) : Nat :=
  if rTime ≤ pc.begin then 0
  else uint (rTime - pc.begin + (2 ^ pc.order - 1)) / 2 ^ pc.order

/-- `++(*__rng(pc, rng->cnt[r], r_time))`. -/
def hit (rng : TfwPcntRanges) (r rTime : Nat) : Option TfwPcntRanges :=
  let i := rngIdx (rng.ctl r) rTime
  if i < 16 then
    some (rng.setCnt r (Function.update (rng.cnt r) i (ulong (rng.cnt r i + 1))))
  else none

/-- The left half of a range whose order has grown by one. -/
def growRow (row : Nat → Nat) : Nat → Nat :=
  sweep (fun row i => ulong (row (2 * i) + row (2 * i + 1))) 8 row

def rangeGrowRight (rng : TfwPcntRanges) (r : Nat) : TfwPcntRanges :=
  let pc := rng.ctl r
  (rng.setCtl r { pc with
    order := pc.order + 1
    end_ := uint (pc.begin + statsRspan (pc.order + 1)) }).setCnt r (growRow (rng.cnt r))

/-- The sum of the left half goes to the first bucket. -/
def gatherLeft (row : Nat → Nat) : Nat → Nat :=
  (List.range' 1 7).foldl (fun row i => Function.update row 0 (ulong (row 0 + row i))) row

/-- Bucket `8 + i` is split between the buckets `2 * i` and `2 * i + 1`. -/
def splitBckt (row : Nat → Nat) (i : Nat) : Nat → Nat :=
  let full := row (8 + i)
  let half := full / 2
  Function.update (Function.update row (2 * i) half) (2 * i + 1) (full - half)

def shrinkRow (row : Nat → Nat) : Nat → Nat :=
  let row := gatherLeft row
  let full := row 8
  let half := full / 2
  let row := Function.update (Function.update row 0 (ulong (row 0 + half))) 1 (full - half)
  (List.range' 1 7).foldl splitBckt row

def rangeShrinkLeft (rng : TfwPcntRanges) (r : Nat) : TfwPcntRanges :=
  let pc := rng.ctl r
  (rng.setCtl r { pc with
    order := pc.order - 1
    begin := uint (pc.end_ + 2 ^ 32 - uint (statsRspan (pc.order - 1))) }).setCnt r
      (shrinkRow (rng.cnt r))

/-- One turn of the loop that looks for the order of an extended range. -/
def extendOrder (begin rTime order : Nat) : Nat ⊕ Nat :=
  if begin + statsRspan (order + 1) < rTime then .inl (order + 1) else .inr (order + 1)

/-- What bucket `i` gets from the `units` buckets coalesced into it. Only the
general case adds up in an `unsigned int`. -/
def coalesced (units : Nat) (row : Nat → Nat) (i : Nat) : Nat :=
  if units = 2 then ulong (row (2 * i) + row (2 * i + 1))
  else if units = 4 then
    ulong (row (4 * i) + row (4 * i + 1) + row (4 * i + 2) + row (4 * i + 3))
  else (List.range units).foldl (fun sum b => uint (sum + row (units * i + b))) 0

def extendRow (shift : Nat) (row : Nat → Nat) : Nat → Nat :=
  let units := 2 ^ shift
  let parts := 16 / 2 ^ shift
  let row := sweep (coalesced units) parts row
  fun b => if parts ≤ b ∧ b < 16 then 0 else row b

def statsExtend (rng : TfwPcntRanges) (rTime : Nat) : Option TfwPcntRanges :=
  let pc := rng.ctl 3
  match iterate (extendOrder pc.begin rTime) 33 pc.order with
  | none => none
  | some order =>
    let last := pc.begin + statsRspan order
    if 2 ^ 32 ≤ last then none
    else
      some ((rng.setCtl 3 { pc with order := order, end_ := last }).setCnt 3
        (extendRow (min (order - pc.order) 4) (rng.cnt 3)))

/-- What `tfw_stats_adjust` learns about a range: how many buckets are not empty,
their sum, and the first of the largest ones. -/
structure BcktScan where
  cnt : Nat
  sum : Nat
  max : Nat
  iMax : Nat
deriving DecidableEq, Repr

def scanBckt (row : Nat → Nat) (sc : BcktScan) (i : Nat) : BcktScan :=
  let sc := if row i ≠ 0 then { sc with sum := ulong (sc.sum + row i), cnt := sc.cnt + 1 } else sc
  if sc.max < row i then { sc with max := row i, iMax := i } else sc

def scanBckts (row : Nat → Nat) : BcktScan :=
  (List.range 16).foldl (scanBckt row) ⟨0, 0, 0, 0⟩

/-- Move eight ninths of the first bucket of range `r` to the right half of the
range before it. -/
def spreadLeft (rng : TfwPcntRanges) (r max : Nat) : TfwPcntRanges :=
  let cnt := max / 9
  let rng := rng.setCnt r
    (Function.update (rng.cnt r) 0 (ulong (rng.cnt r 0 + 2 ^ 64 - ulong (cnt * 8))))
  rng.setCnt (r - 1) (fun b => if 8 ≤ b ∧ b < 16 then cnt else rng.cnt (r - 1) b)

def statsAdjust (rng : TfwPcntRanges) (r : Nat) : Option TfwPcntRanges :=
  if r = 0 then none
  else
    let sc := scanBckts (rng.cnt r)
    if sc.cnt = 0 then none
    else if sc.max ≤ ulong (sc.sum * 2) / sc.cnt then some rng
    else
      let prepc := rng.ctl (r - 1)
      let prend := prepc.begin + statsRspan (prepc.order + 1)
      let rng :=
        if sc.iMax = 0 ∧ prend < (rng.ctl r).begin then
          spreadLeft (rangeGrowRight rng (r - 1)) r sc.max
        else rng
      some (if (rng.ctl r).order ≠ 0 then rangeShrinkLeft rng r else rng)

/-- The range search of `tfw_stats_update`, with the hit and the adjustment. -/
def statsCount (rng : TfwPcntRanges) (rTime : Nat) : Option TfwPcntRanges :=
  if rTime ≤ (rng.ctl 2).end_ then
    if (rng.ctl 1).end_ < rTime then do statsAdjust (← hit rng 2 rTime) 2
    else if (rng.ctl 0).begin ≠ 1 then none
    else if (rng.ctl 0).end_ < rTime then do statsAdjust (← hit rng 1 rTime) 1
    else hit rng 0 rTime
  else do
    let rng ← if (rng.ctl 3).end_ < rTime then statsExtend rng rTime else some rng
    statsAdjust (← hit rng 3 rTime) 3

/-- The extremes: `tfw_stats_adj_max` runs only if `tfw_stats_adj_min` has set
nothing. -/
def statsTotals (rng : TfwPcntRanges) (rTime : Nat) : TfwPcntRanges :=
  { rng with
    minVal := if rTime < rng.minVal then rTime else rng.minVal
    maxVal := if ¬ rTime < rng.minVal ∧ rng.maxVal < rTime then rTime else rng.maxVal
    totVal := ulong (rng.totVal + rTime)
    totCnt := ulong (rng.totCnt + 1) }

def statsUpdate (rng : TfwPcntRanges) (rTime : Nat) : Option TfwPcntRanges :=
  (statsCount rng rTime).map (statsTotals · rTime)

/-- `tfw_rngctl_init`. -/
def rngctlInit : Nat → TfwPcntCtl
  | 0 => ⟨0, 1, 16⟩
  | 1 => ⟨1, 17, 47⟩
  | 2 => ⟨2, 48, 108⟩
  | _ => ⟨4, 109, 349⟩

/-- `__tfw_apm_rbent_reset` on the ranges of an entry, which stay where they are. -/
def rbentReset (rng : TfwPcntRanges) : TfwPcntRanges :=
  { ctl := rng.ctl, totCnt := 0, totVal := 0, minVal := 2 ^ 32 - 1, maxVal := 0,
    cnt := fun _ _ => 0 }

/-- `tfw_apm_rbent_init`. -/
def rbentInit : TfwPcntRanges :=
  rbentReset ⟨rngctlInit, 0, 0, 0, 0, fun _ _ => 0⟩

/-- A cursor in an entry: the value of a bucket, its number across all ranges, its
range and its number there. -/
structure TfwApmRBEState where
  v : Nat
  i : Nat
  r : Nat
  b : Nat
deriving DecidableEq, Repr

/-- `__tfw_apm_state_set`: the fields take 16, 8, 4 and 4 bits. -/
def apmStateSet (v i r b : Nat) : TfwApmRBEState :=
  ⟨v % 2 ^ 16, i % 2 ^ 8, r % 2 ^ 4, b % 2 ^ 4⟩

def bcktValue (rng : TfwPcntRanges) (r b : Nat) : Nat :=
  uint ((rng.ctl r).begin + b * 2 ^ (rng.ctl r).order)

/-- The loops of `__tfw_apm_state_next` with `n` buckets to go: `r` and `b` are the
quotient and the remainder of `i` all along. -/
def apmStateFrom (rng : TfwPcntRanges) : Nat → Nat → TfwApmRBEState
  | 0, _ => apmStateSet (2 ^ 16 - 1) 64 4 16
  | n + 1, i =>
    if rng.cnt (i / 16) (i % 16) = 0 then apmStateFrom rng n (i + 1)
    else apmStateSet (bcktValue rng (i / 16) (i % 16)) i (i / 16) (i % 16)

/-- `__tfw_apm_state_next` on a cursor with sequential number `i`. -/
def apmStateNext (rng : TfwPcntRanges) (i : Nat) : TfwApmRBEState :=
  apmStateFrom rng (64 - i) i

/-- `tfw_pstats_ith`; the percentiles have the numbers from 3 to 7. -/
def pstatsIth : Nat → Nat
  | 3 => 50
  | 4 => 75
  | 5 => 90
  | 6 => 95
  | 7 => 99
  | _ => 0

def pval (totalCnt i : Nat) : Nat := ulong (totalCnt * pstatsIth i) / 100

/-- The percentiles with nothing to collect are zero and are passed over. -/
def zeroPvals (totalCnt : Nat) (val : Nat → Nat) : Nat × (Nat → Nat) :=
  (List.range' 3 5).foldl
    (fun pv i => if pval totalCnt i = 0 then (pv.1 + 1, Function.update pv.2 pv.1 0) else pv)
    (3, val)

/-- The least value of the cursors, `USHRT_MAX` if there is none below it. -/
def vMin (st : List TfwApmRBEState) : Nat :=
  st.foldl (fun m s => if s.v < m then s.v else m) (2 ^ 16 - 1)

/-- Count the hits of the cursors at `m` and move those on. -/
def takeMin (m : Nat) :
    List TfwPcntRanges → List TfwApmRBEState → Nat → Option (Nat × List TfwApmRBEState)
  | rng :: rngs, s :: st, cnt =>
    if s.v ≠ m then
      (takeMin m rngs st cnt).map (fun x => (x.1, s :: x.2))
    else if 64 ≤ s.i then none
    else
      (takeMin m rngs st (ulong (cnt + rng.cnt s.r s.b))).map
        (fun x => (x.1, apmStateNext rng ((s.i + 1) % 2 ^ 8) :: x.2))
  | _, _, cnt => some (cnt, [])

/-- `for ( ; p < T_PSZ && pval[p] <= cnt; ++p) val[p] = v`, with at most `n` turns. -/
def fillPvals (totalCnt cnt v : Nat) : Nat → Nat → (Nat → Nat) → Nat × (Nat → Nat)
  | 0, p, val => (p, val)
  | n + 1, p, val =>
    if pval totalCnt p ≤ cnt then fillPvals totalCnt cnt v n (p + 1) (Function.update val p v)
    else (p, val)

/-- The variables of the loop in `tfw_apm_prnctl_calc`. -/
structure CalcState where
  p : Nat
  cnt : Nat
  st : List TfwApmRBEState
  val : Nat → Nat

/-- One turn of `while (p < T_PSZ)`. -/
def calcTurn (rngs : List TfwPcntRanges) (totalCnt : Nat) (c : CalcState) :
    CalcState ⊕ Option (Nat → Nat) :=
  if c.p < 8 then
    if vMin c.st = 2 ^ 16 - 1 then .inr none
    else
      match takeMin (vMin c.st) rngs c.st c.cnt with
      | none => .inr none
      | some (cnt, st) =>
        let pv := fillPvals totalCnt cnt (vMin c.st) (8 - c.p) c.p c.val
        .inl ⟨pv.1, cnt, st, pv.2⟩
  else .inr (some c.val)

/-- The variables of the last loop: the sums and the extremes reported. -/
structure Summary where
  cnt : Nat
  val : Nat
  min : Nat
  max : Nat
deriving DecidableEq, Repr

def Summary.addEntry (s : Summary) (rng : TfwPcntRanges) : Summary :=
  { min := if rng.minVal < s.min then uint rng.minVal else s.min
    max := if s.max < rng.maxVal then uint rng.maxVal else s.max
    cnt := ulong (s.cnt + rng.totCnt)
    val := ulong (s.val + rng.totVal) }

/-- `TFW_PSTATS_IDX_MIN`, `TFW_PSTATS_IDX_MAX` and `TFW_PSTATS_IDX_AVG`. -/
def idxMin : Nat := 0

def idxMax : Nat := 1

def idxAvg : Nat := 2

def prnctlSummary (rngs : List TfwPcntRanges) (val : Nat → Nat) : Nat → Nat :=
  let s := rngs.foldl Summary.addEntry ⟨0, 0, 2 ^ 32 - 1, 0⟩
  let val := Function.update (Function.update val idxMax s.max) idxMin s.min
  if s.cnt ≠ 0 then Function.update val idxAvg (uint (s.val / s.cnt)) else val

/-- The percentiles alone. Every turn moves a cursor on, so `64 * rbufsz` turns
and the last check are all there can be. -/
def prnctlPcnts (rngs : List TfwPcntRanges) (totalCnt : Nat) (val : Nat → Nat) :
    Option (Nat → Nat) :=
  let st := rngs.map (fun rng => apmStateNext rng 0)
  let pv := zeroPvals totalCnt val
  (iterate (calcTurn rngs totalCnt) (64 * rngs.length + 1) ⟨pv.1, 0, st, pv.2⟩).join

/-- `tfw_apm_prnctl_calc` on the entries of the ring buffer. -/
def prnctlCalc (rngs : List TfwPcntRanges) (totalCnt : Nat) (val : Nat → Nat) :
    Option (Nat → Nat) :=
  (prnctlPcnts rngs totalCnt val).map (prnctlSummary rngs)

end Tempesta.Apm
