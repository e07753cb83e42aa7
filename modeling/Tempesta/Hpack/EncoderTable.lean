import Tempesta.Hpack.EncoderFind
import Tempesta.Hpack.DecoderTable

/-!
The dynamic table of the HPACK encoder: nodes in a ring buffer, evicted from the
eldest one on, and indexed by the tree. `tfw_hpack_add_node` first plans the
change in an iterator, writes the new node into the buffer, and then commits:
the evicted nodes leave the tree and the new one enters it.
-/

namespace Tempesta.Hpack
open RbLib

inductive TfwH2TransOp where
  | inplace
  | sub
  | add
  | expand
  deriving DecidableEq, Repr

/-- Variables of the loop in `tfw_http_hdr_split`, with chunks given by their
index. -/
structure SplitVars where
  nameFound : Bool := false
  nmChunks : Nat := 0
  nmLen : Nat := 0
  valAt : Option Nat := none
  valLen : Nat := 0
  hdrTail : Nat := 0
  lastAt : Option Nat := none

def splitChunk (v : SplitVars) (i : Nat) (c : TfwChunk) : SplitVars :=
  let len := c.data.length
  if len = 0 then v
  else if v.nameFound = false then
    if c.data.getD 0 0 = 0x3a then { v with nameFound := true }
    else { v with nmChunks := v.nmChunks + 1, nmLen := v.nmLen + len }
  else if v.valAt.isNone ∧ c.ows then v
  else
    let v := { v with valAt := some (v.valAt.getD i), valLen := v.valLen + len }
    if c.ows then { v with hdrTail := v.hdrTail + len }
    else { v with lastAt := some i, hdrTail := 0 }

/-- `tfw_http_hdr_split`: the bytes of the name and of the value, and the length
of both. -/
def tfwHttpHdrSplit (hdr : TfwStr) (inplace : Bool) : List UInt8 × List UInt8 × Nat :=
  let bytes (cs : List TfwChunk) := (cs.map TfwChunk.data).flatten
  if inplace = false then
    match hdr.chunks with
    | [] => ([], [], 0)
    | [name] => (name.data, [], 0)
    | name :: c :: cs =>
      if c.data = ofAscii ": " then
        if cs = [] then (name.data, [], 0)
        else (name.data, bytes cs, hdr.len - 2)
      else (name.data, bytes (c :: cs), hdr.len)
  else
    let v := (hdr.chunks.zipIdx).foldl (fun v ci => splitChunk v ci.2 ci.1) {}
    let name := bytes (hdr.chunks.take v.nmChunks)
    match v.valAt, v.lastAt with
    | none, _ => (name, [], v.nmLen)
    | some _, none => (name, [], 0)
    | some first, some last =>
      (name, bytes ((hdr.chunks.drop first).take (last - first + 1)),
        v.nmLen + (v.valLen - v.hdrTail))

def hpackEncTableMaxSize : Nat := 4096

def hpackMaxEncEviction : Nat := 5

def hpackAlign (sz : Nat) : Nat := (sz + 7) / 8 * 8

/-- The size of a node with a header of the given length, in bytes. -/
def nodeLen (hdrLen : Nat) : Nat := hpackAlign (16 + hdrLen)

def hpackNodeSize (t : TfwHPackTree) (node : Nat) : Nat := nodeLen (t.hdrLen node)

def hpackNodeNext (t : TfwHPackTree) (node : Nat) : Nat := node + hpackNodeSize t node / 8

/-- Subtraction of `unsigned short` values. -/
def subU16 (a b : Nat) : Nat := (a + (2 ^ 16 - b % 2 ^ 16)) % 2 ^ 16

structure TfwHPackETblIter where
  first : Option Nat
  last : Option Nat
  rbLen : Nat
  rbSize : Nat
  size : Nat

/-- The encoder table. The lock, the memory pool and the guard are left out
here; the guard belongs to the protocol between responses. -/
structure TfwHPackETbl extends TfwHPackTree, TfwHPackETblIter where
  window : Nat
  idxAcc : UInt64

/-- The iterator of `tfw_hpack_rbuf_calc` after the node `first` was dropped. -/
def rbufDropFirst (t : TfwHPackTree) (last lastLen : Nat) (it : TfwHPackETblIter)
    (first : Nat) : TfwHPackETblIter :=
  let fLen := hpackNodeSize t first
  let it :=
    if last < first ∧ (it.rbLen : Int) - fLen = 8 * last + lastLen then
      { it with rbSize := hpackEncTableMaxSize, first := some 0 }
    else { it with first := some (hpackNodeNext t first) }
  { it with
    size := subU16 it.size (hpackEntryOverhead + t.hdrLen first)
    rbLen := subU16 it.rbLen fLen }

/-- The loop of `tfw_hpack_rbuf_calc`. Without `collect` there is no `del_list`,
and the nodes are erased at once. -/
def rbufCalcLoop (newSize : Nat) (collect : Bool) (last lastLen : Nat) :
    Nat → TfwHPackTree → TfwHPackETblIter → List Nat →
    Option (Except Errno (TfwHPackTree × TfwHPackETblIter × List Nat))
  | 0, _, _, _ => none
  | fuel + 1, t, it, delList => do
      if hpackMaxEncEviction ≤ delList.length then some (.error .e2big)
      else
        let first ← it.first
        if last = first then
          some (.ok (t, { it with first := none, last := none, rbLen := 0, size := 0 }, delList))
        else
          let it := rbufDropFirst t last lastLen it first
          let (t, delList) ←
            if collect then some (t, delList ++ [first])
            else do some (← tfwHpackRbtreeErase t first, delList)
          if newSize < it.size then rbufCalcLoop newSize collect last lastLen fuel t it delList
          else some (.ok (t, it, delList))

def tfwHpackRbufCalc (t : TfwHPackTree) (newSize : Nat) (collect : Bool)
    (it : TfwHPackETblIter) :
    Option (Except Errno (TfwHPackTree × TfwHPackETblIter × List Nat)) := do
  let last ← it.last
  rbufCalcLoop newSize collect last (hpackNodeSize t last) rbtreeFuel t it []

def tfwHpackRbufCommit (behind : Nat → Nat → UInt8) (tbl : TfwHPackETbl) (hdr : TfwStr)
    (delList : List Nat) (place : TfwHPackNodeIter) (iter : TfwHPackETblIter) :
    Option TfwHPackETbl := do
  let t ← delList.foldlM tfwHpackRbtreeErase tbl.toTfwHPackTree
  let place ←
    if delList ≠ [] then do
      let (_, _, place) ← tfwHpackRbtreeFind behind t hdr place
      some place
    else some place
  let t ← tfwHpackRbtreeAdd t (← iter.last) place
  some { tbl with toTfwHPackTree := t, toTfwHPackETblIter := iter }

/-- Where the new node goes: `none` if the buffer has no room for it. -/
def rbufPlace (t : TfwHPackTree) (it : TfwHPackETblIter) (nodeLen : Nat) :
    Option (Option TfwHPackETblIter) := do
  if it.rbSize < it.rbLen + nodeLen then some none
  else
    match it.first with
    | none => some (some { it with first := some 0, last := some 0 })
    | some first =>
      let last ← it.last
      let endSpace := subU16 hpackEncTableMaxSize (8 * last + hpackNodeSize t last)
      if first ≤ last ∧ endSpace < nodeLen then
        if (it.rbSize : Int) - endSpace < it.rbLen + nodeLen then some none
        else some (some { it with rbSize := subU16 it.rbSize endSpace, last := some 0 })
      else some (some { it with last := some (hpackNodeNext t last) })

/-- The assignments to the new node before the commit. -/
def writeNode (t : TfwHPackTree) (node hdrLen : Nat) (rindex : UInt64) (text : List UInt8) :
    TfwHPackTree :=
  ((t.setHdrLen node hdrLen).setRindex node rindex).setBytes (TfwHPackTree.hdrAddr node) text

/-- The part of `tfw_hpack_add_node` behind the planning of evictions. -/
def addPlanned (behind : Nat → Nat → UInt8) (tbl : TfwHPackETbl) (hdr : TfwStr)
    (place : TfwHPackNodeIter) (hdrLen : Nat) (text : List UInt8) (it : TfwHPackETblIter)
    (delList : List Nat) : Option (Except Errno TfwHPackETbl) := do
  match ← rbufPlace tbl.toTfwHPackTree it (nodeLen hdrLen) with
  | none => some (.error .e2big)
  | some it =>
    let it := { it with
      size := it.size + (hpackEntryOverhead + hdrLen)
      rbLen := it.rbLen + nodeLen hdrLen }
    let node ← it.last
    let idxAcc := tbl.idxAcc + 1
    let t := writeNode tbl.toTfwHPackTree node hdrLen idxAcc text
    let tbl ← tfwHpackRbufCommit behind
      { tbl with toTfwHPackTree := t, idxAcc := idxAcc } hdr delList place it
    some (.ok tbl)

def tfwHpackAddNode (behind : Nat → Nat → UInt8) (tbl : TfwHPackETbl) (hdr : TfwStr)
    (place : TfwHPackNodeIter) (op : TfwH2TransOp) : Option (Except Errno TfwHPackETbl) := do
  let (name, value, hdrLen) := tfwHttpHdrSplit hdr (op = .inplace)
  let nodeSize := hdrLen + hpackEntryOverhead
  if tbl.window < nodeSize then some (.error .e2big)
  else if tbl.window < (tbl.size + nodeSize) % 2 ^ 16 then
    match ← tfwHpackRbufCalc tbl.toTfwHPackTree (tbl.window - nodeSize) true
        tbl.toTfwHPackETblIter with
    | .error e => some (.error e)
    | .ok (_, it, delList) => addPlanned behind tbl hdr place hdrLen (name ++ value) it delList
  else addPlanned behind tbl hdr place hdrLen (name ++ value) tbl.toTfwHPackETblIter []

def tfwHpackSetRbufSize (tbl : TfwHPackETbl) (newSize : Nat) : Option TfwHPackETbl := do
  if hpackEncTableMaxSize < newSize then some tbl
  else if newSize < tbl.window then
    if newSize < tbl.size then
      match ← tfwHpackRbufCalc tbl.toTfwHPackTree newSize false tbl.toTfwHPackETblIter with
      | .ok (t, it, _) =>
        some { tbl with toTfwHPackTree := t, toTfwHPackETblIter := it, window := newSize }
      | .error _ => some { tbl with window := newSize }
    else some { tbl with window := newSize }
  else some tbl

/-- `HPACK_TABLE_DEF_SIZE`, the size that `tfw_h2_context_init` passes. -/
def hpackTableDefSize : Nat := 4096

/-- The encoder's part of `tfw_hpack_init`, with the buffer as it was found. -/
def tfwHpackEncInit (rbuf : Nat → Word) : TfwHPackETbl where
  rbuf := rbuf
  root := none
  first := none
  last := none
  rbLen := 0
  rbSize := hpackEncTableMaxSize
  size := 0
  window := hpackTableDefSize
  idxAcc := 0

end Tempesta.Hpack
