import Tempesta.Hpack.StaticTable

/-!
The dynamic table of the HPACK decoder as `tfw_hpack_add_index`,
`tfw_hpack_find_index` and `tfw_hpack_set_length` compute it: a circular array
of entries that grows by doubling. The array is modelled as the memory it
stands in, counted in entries from its first byte, so that the copying on
growth can be followed also where it leaves the array. What the pools answer
(a new page for the header, the same or another block for the array) is an
input of each operation; every allocation succeeds.
-/

namespace Tempesta.Hpack

/-- A place in memory of the size of an entry; `none` holds no entry. -/
abbrev Cell := Option TfwHPackEntry

abbrev Cells := Nat → Cell

def hpackEntryOverhead : Nat := 32

/-- `sizeof(TfwHPackEntry)` -/
def sizeofTfwHPackEntry : Nat := 32

structure TfwHPackDTbl where
  entries : Cells
  n : Nat
  curr : Nat
  length : Nat
  size : Nat
  window : Nat

/-- The decoder's part of the HPACK context. -/
structure TfwHPack where
  decTbl : TfwHPackDTbl
  maxWindow : Nat

/-- What the parsing iterator hands over to the decoder table. -/
structure TfwMsgParseIter where
  parsedHdr : TfwStr
  nmLen : Nat
  nmNum : Nat
  tag : TfwHPackTag

/-- The answers of the two pools during one operation: whether the header was
placed on a new page, whether the array moved to another block, and what is in
the memory of a block that was newly obtained. -/
structure PoolReply where
  newPage : Bool
  moved : Bool
  fresh : Cells

inductive Errno where
  | einval
  | e2big
  deriving DecidableEq, Repr

/-- Subtraction of `unsigned int` values. -/
def subU32 (a b : Nat) : Nat := (a + (2 ^ 32 - b % 2 ^ 32)) % 2 ^ 32

/-- `memcpy_fast` between arrays of entries: the offsets count entries, since
the source adds them to pointers to entries. -/
def memcpyFast (dst : Cells) (dOff : Nat) (src : Cells) (sOff n : Nat) : Cells :=
  fun i => if dOff ≤ i ∧ i < dOff + n then src (sOff + (i - dOff)) else dst i

def tfwHpackSetEntry (it : TfwMsgParseIter) : TfwHPackEntry where
  hdr := it.parsedHdr
  nameLen := it.nmLen
  nameNum := it.nmNum
  tag := it.tag
  last := false

/-- The eviction loop of `tfw_hpack_add_index` and `tfw_hpack_set_length`, with
`count` entries left, the eldest one at `early`. Running out of entries or
reading a cell without one is outside the C semantics. -/
def evictLoop (entries : Cells) (length limit : Nat) : Nat → Nat → Nat → Option (Nat × Nat)
  | 0, _, _ => none
  | count + 1, early, size => do
      let cp ← entries early
      let size := subU32 size (hpackEntryOverhead + cp.hdr.len)
      let early := if early + 1 = length then 0 else early + 1
      if limit < size then evictLoop entries length limit count early size
      else some (count, size)

def earlyIndex (tbl : TfwHPackDTbl) : Nat :=
  if tbl.n ≤ tbl.curr then tbl.curr - tbl.n else tbl.curr + (tbl.length - tbl.n)

/-- The reallocation of the array, for a table that is full. -/
def growEntries (tbl : TfwHPackDTbl) (pool : PoolReply) : TfwHPackDTbl :=
  if tbl.length ≠ 0 then
    let block := tbl.length * sizeofTfwHPackEntry
    let newBlock := block * 2
    let wrap := tbl.curr * sizeofTfwHPackEntry
    let tail := block - wrap
    let length := tbl.length * 2 % 2 ^ 32
    if tbl.curr = 0 ∧ pool.moved = false then
      { tbl with length := length, curr := tbl.n }
    else if pool.moved = false then
      { tbl with
        length := length
        entries := memcpyFast tbl.entries (newBlock - tail) tbl.entries wrap
          (tail / sizeofTfwHPackEntry) }
    else
      let copied := memcpyFast pool.fresh 0 tbl.entries wrap (tail / sizeofTfwHPackEntry)
      { tbl with
        length := length
        entries := memcpyFast copied tail tbl.entries 0 (wrap / sizeofTfwHPackEntry)
        curr := tbl.n }
  else
    { tbl with length := 32, entries := pool.fresh }

/-- Marking the previous entry as the last one on its page. -/
def markLast (entries : Cells) (i : Nat) : Cells :=
  fun j => if j = i then (entries j).map fun e => { e with last := true } else entries j

/-- The end of `tfw_hpack_add_index`: write the entry at `curr` of a table with
`count` entries, and advance. -/
def putEntry (tbl : TfwHPackDTbl) (count newSize : Nat) (it : TfwMsgParseIter)
    (pool : PoolReply) : TfwHPackDTbl :=
  let curr := tbl.curr
  let entries : Cells := fun j => if j = curr then some (tfwHpackSetEntry it) else tbl.entries j
  let entries :=
    if count ≠ 0 ∧ pool.newPage then
      markLast entries (if curr ≠ 0 then curr - 1 else tbl.length - 1)
    else entries
  { tbl with
    entries := entries
    curr := if curr + 1 = tbl.length then 0 else curr + 1
    n := count + 1
    size := newSize }

/-- `tfw_hpack_add_index`. The result is the return code with the table, and
`none` where the C code has no defined behaviour. -/
def tfwHpackAddIndex (tbl : TfwHPackDTbl) (it : TfwMsgParseIter) (pool : PoolReply) :
    Option (Except Errno TfwHPackDTbl) :=
  let hdrLen := it.parsedHdr.len
  let delta := (hpackEntryOverhead + hdrLen) % 2 ^ 32
  if delta < hdrLen then some (.error .einval)
  else
    let newSize := (tbl.size + delta) % 2 ^ 32
    if tbl.window < newSize ∨ newSize < delta then
      if delta ≤ tbl.window then do
        let (count, size) ← evictLoop tbl.entries tbl.length (tbl.window - delta)
          tbl.n (earlyIndex tbl) tbl.size
        some (.ok (putEntry tbl count (size + delta) it pool))
      else if tbl.n ≠ 0 then
        some (.ok { tbl with n := 0, curr := 0, size := 0 })
      else some (.ok tbl)
    else if tbl.n = tbl.length then
      some (.ok (putEntry (growEntries tbl pool) tbl.n newSize it pool))
    else some (.ok (putEntry tbl tbl.n newSize it pool))

/-- `tfw_hpack_find_index`: `none` is the null pointer, `some cell` the memory
that the returned pointer refers to. -/
def tfwHpackFindIndex (tbl : TfwHPackDTbl) (index : Nat) : Option Cell :=
  if index ≤ hpackStaticEntries then some staticTable[index - 1]?
  else
    let index := index - hpackStaticEntries
    if index ≤ tbl.n then
      some (tbl.entries
        (if index ≤ tbl.curr then tbl.curr - index else tbl.curr + (tbl.length - index)))
    else none

def tfwHpackSetLength (hp : TfwHPack) (newSize : Nat) : Option (Except Errno TfwHPack) :=
  let tbl := hp.decTbl
  if hp.maxWindow < newSize then some (.error .einval)
  else if newSize < tbl.size then do
    let (count, size) ← evictLoop tbl.entries tbl.length newSize tbl.n (earlyIndex tbl) tbl.size
    some (.ok { hp with decTbl := { tbl with n := count, size := size, window := newSize } })
  else some (.ok { hp with decTbl := { tbl with window := newSize } })

/-- The decoder's part of `tfw_hpack_init`. -/
def tfwHpackInit (htblSz : UInt32) : TfwHPack where
  decTbl := { entries := fun _ => none, n := 0, curr := 0, length := 0, size := 0
              window := htblSz.toNat }
  maxWindow := htblSz.toNat

inductive DTblOp where
  | addIndex (it : TfwMsgParseIter) (pool : PoolReply)
  | setLength (newSize : Nat)

/-- One operation on the decoder table. A refused operation leaves the table. -/
def dtblStep (hp : TfwHPack) : DTblOp → Option TfwHPack
  | .addIndex it pool => do
      match ← tfwHpackAddIndex hp.decTbl it pool with
      | .ok tbl => some { hp with decTbl := tbl }
      | .error _ => some hp
  | .setLength newSize => do
      match ← tfwHpackSetLength hp newSize with
      | .ok hp' => some hp'
      | .error _ => some hp

end Tempesta.Hpack
