import Tempesta.Hpack.EncoderTree

/-!
Searching the encoder table: `tfw_hpack_node_compare` and
`tfw_hpack_rbtree_find`. A header is compared with the text of a node in parts
of four, two and one bytes, while the chunks of the header are walked through
name, colon, white space and value. The final check for white space reads past
the end of a chunk, so what stands in memory behind each chunk is a parameter.
-/

namespace Tempesta.Hpack
open RbLib

inductive TfwHPackCmpStates where
  | nameSearch
  | nameFound
  | valueFound
  deriving DecidableEq, Repr

def isOws (b : UInt8) : Bool := b = 0x20 ∨ b = 0x09

/-- A `char` that takes part in integer arithmetic. -/
def charInt (b : UInt8) : BitVec 32 := b.toBitVec.signExtend 32

def intLe (p : List UInt8) : BitVec 32 :=
  charInt (p.getD 0 0) <<< 24 ||| charInt (p.getD 1 0) <<< 16 |||
    charInt (p.getD 2 0) <<< 8 ||| charInt (p.getD 3 0)

def shLe (p : List UInt8) : BitVec 32 :=
  charInt (p.getD 0 0) <<< 8 ||| charInt (p.getD 1 0)

/-- The value of the first `part` bytes that is compared: `INT_LE`, `SH_LE` and
`HP_CHAR`, and with `lc` their variants for names. -/
def partValue (lc : Bool) (part : Nat) (p : List UInt8) : Int :=
  match part with
  | 4 => (if lc then intLe p ||| 0x20202020#32 else intLe p).toInt
  | 2 => (if lc then shLe p ||| 0x2020#32 else shLe p).toInt
  | _ => (if lc then p.getD 0 0 ||| 0x20 else p.getD 0 0).toNat

/-- Equality of bytes as `CHAR_LC` and `HP_CHAR` decide it, and `SH_LC` and
`HP_SH` for two at once. -/
def sameBytes (lc : Bool) (p q : List UInt8) : Bool :=
  if lc then p.map (· ||| 0x20) = q.map (· ||| 0x20) else p = q

/-- Result of `HPACK_HDR_OWS_PROCESS`: the comparison ends, or goes on with
`idx + 1` bytes of the node matched, and the colon possibly found. -/
inductive OwsResult where
  | ret (r : Int)
  | skip (matched : Nat) (found : Bool)

/-- The number of leading bytes up to the last one that is not white space. -/
def trimOws (data : List UInt8) : Nat := (data.reverse.dropWhile isOws).length

/-- `HPACK_HDR_OWS_PROCESS`, with `lastChunk` for `chunk == TFW_STR_LAST(hdr)`. -/
def owsProcess (state : TfwHPackCmpStates) (lastChunk : Bool) (len partLen : Nat)
    (pos data : List UInt8) (ret : Int) : OwsResult :=
  if state ≠ .nameSearch ∧ (state ≠ .valueFound ∨ lastChunk = false ∨ len ≠ partLen) then .ret ret
  else
    let kept := trimOws (data.take partLen)
    let found : Bool := state = .nameSearch ∧ kept ≠ 0 ∧ data[kept - 1]? = some 0x3a
    let kept := if found then kept - 1 else kept
    if kept = partLen then .ret ret
    else if sameBytes (state = .nameSearch) (pos.take kept) (data.take kept) then .skip kept found
    else .ret ret

/-- How the comparison of one chunk ends: with a result, or at `chunk_end` with
the rest of the node and of the chunk. -/
inductive ChunkEnd where
  | ret (r : Int)
  | chunkEnd (state : TfwHPackCmpStates) (pos data : List UInt8)

/-- The next part to compare: the loops over four and two bytes, and one byte. -/
def partLen (len : Nat) : Nat := if 4 ≤ len then 4 else if 2 ≤ len then 2 else 1

/-- The comparison of `len` bytes of a chunk with the node; `fuel` is at least
`len`. -/
def compareParts (state : TfwHPackCmpStates) (lastChunk : Bool) :
    Nat → Nat → List UInt8 → List UInt8 → ChunkEnd
  | 0, _, pos, data => .chunkEnd state pos data
  | fuel + 1, len, pos, data =>
    if len = 0 then .chunkEnd state pos data
    else
      let part := partLen len
      let lc : Bool := state = .nameSearch
      if partValue lc part pos = partValue lc part data then
        compareParts state lastChunk fuel (len - part) (pos.drop part) (data.drop part)
      else
        let ret : Int := if partValue lc part data < partValue lc part pos then -1 else 1
        match owsProcess state lastChunk len part pos data ret with
        | .ret r => .ret r
        | .skip matched true => .chunkEnd .nameFound (pos.drop matched) (data.drop part)
        | .skip matched false =>
          compareParts state lastChunk fuel (len - part) (pos.drop matched) (data.drop part)

/-- Byte `j` from the start of a chunk, also past its end. -/
def chunkByte (c : TfwChunk) (behind : Nat → UInt8) (j : Nat) : UInt8 :=
  c.data.getD j (behind (j - c.data.length))

/-- The check at `chunk_end` for a node that is used up: only white space may
follow. The index starts at `min_len`, counted from where `data` has come to. -/
def owsTail (c : TfwChunk) (behind : Nat → UInt8) (rest : List TfwChunk) (dataOff minLen : Nat) :
    Int :=
  let window := (List.range (c.data.length - minLen)).map fun k =>
    chunkByte c behind (dataOff + minLen + k)
  if window.all isOws ∧ rest.all fun c => c.data.all isOws then 0 else 1

/-- The loop of `tfw_hpack_node_compare` over the chunks. The result is the
order and whether the name was found. -/
def compareChunks (behind : Nat → Nat → UInt8) :
    Nat → TfwHPackCmpStates → List UInt8 → Bool → List TfwChunk → Int × Bool
  | _, _, pos, named, [] => (if pos.length ≠ 0 then -1 else 0, named)
  | i, state, pos, named, c :: cs =>
    if c.data.length = 0 then compareChunks behind (i + 1) state pos named cs
    else if state = .nameFound ∧ isOws (c.data.getD 0 0) then
      compareChunks behind (i + 1) state pos named cs
    else
      let state := if state = .nameFound then .valueFound else state
      let minLen := min pos.length c.data.length
      match compareParts state (cs.length = 0) minLen minLen pos c.data with
      | .ret r => (r, named)
      | .chunkEnd state' pos' data' =>
        let named := named || (state' = .nameFound : Bool)
        if pos'.length = 0 then
          (owsTail c (behind i) cs (c.data.length - data'.length) minLen, named)
        else compareChunks behind (i + 1) state' pos' named cs

/-- `tfw_hpack_node_compare`, for a node with the given text. -/
def tfwHpackNodeCompare (behind : Nat → Nat → UInt8) (hdr : TfwStr) (node : List UInt8) :
    Int × Bool :=
  compareChunks behind 0 .nameSearch node false hdr.chunks

inductive TfwHPackETblRes where
  | found
  | nmFound
  | notFound
  deriving DecidableEq, Repr

/-- The loop of `tfw_hpack_rbtree_find`. A successful search leaves the place
as it was. -/
def findLoop (behind : Nat → Nat → UInt8) (t : TfwHPackTree) (hdr : TfwStr) :
    Nat → Option Nat → TfwHPackNodeIter → Option Nat → TfwHPackNodeIter →
    Option (TfwHPackETblRes × Option Nat × TfwHPackNodeIter)
  | 0, _, _, _, _ => none
  | _ + 1, none, here, nmNode, _ =>
    some (if nmNode.isSome then .nmFound else .notFound, nmNode, here)
  | fuel + 1, some node, _, nmNode, place => do
      let (res, named) := tfwHpackNodeCompare behind hdr (t.hdrText node)
      let nmNode := if nmNode.isNone ∧ named then some node else nmNode
      if res < 0 then
        findLoop behind t hdr fuel (← hpackNodeCond (t.kid .left node)) ⟨some node, .left⟩ nmNode
          place
      else if 0 < res then
        findLoop behind t hdr fuel (← hpackNodeCond (t.kid .right node)) ⟨some node, .right⟩ nmNode
          place
      else some (.found, some node, place)

/-- `tfw_hpack_rbtree_find`. The result is the state of the search, the node
found, and the place for a new node. -/
def tfwHpackRbtreeFind (behind : Nat → Nat → UInt8) (t : TfwHPackTree) (hdr : TfwStr)
    (place : TfwHPackNodeIter) : Option (TfwHPackETblRes × Option Nat × TfwHPackNodeIter) :=
  findLoop behind t hdr rbtreeFuel t.root ⟨none, .left⟩ none place

end Tempesta.Hpack
