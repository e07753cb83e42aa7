import Tempesta.Hpack.HuffmanTable
import Tempesta.Lib.Iterate

/-!
Huffman decoding of a string that arrives in fragments. The context keeps the
last bytes in `hctx` and, in `curr`, how far above the lowest of them the next
seven bits to look up are; `length` counts the bytes of the string that have not
arrived yet. Writing a symbol appends it to the decoded string: the allocation of
its place is assumed to succeed.
-/

namespace Tempesta.Hpack

open IterLib

/-- The fields of `TfwHPack` for the string that is being decoded. -/
structure HuffmanCtx where
  length : Nat
  curr : Int
  hctx : Nat
  deriving DecidableEq, Repr

/-- What a call returns and leaves behind. -/
structure HuffmanRes where
  ret : TRet
  hp : HuffmanCtx
  out : List UInt8
  deriving DecidableEq, Repr

def setNext (hp : HuffmanCtx) (c : UInt8) : HuffmanCtx where
  length := hp.length - 1
  curr := hp.curr + 8
  hctx := (hp.hctx <<< 8 ||| c.toNat) % 2 ^ 16

/-- The padding test of `huffman_decode_tail`: the bits left are ones. -/
def tailPadded (hp : HuffmanCtx) (offset i : Nat) : Bool :=
  offset == 0 && (i ^^^ (htEosHigh >>> 1)) < 1 <<< (-hp.curr).toNat

def huffmanDecodeTail : Nat → HuffmanCtx → Nat → List UInt8 → Option HuffmanRes
  | 0, _, _, _ => none
  | n + 1, hp, offset, out =>
    if hp.curr = -htNBits then
      some ⟨if offset = 0 then .ok else .drop, hp, out⟩
    else
      let i := (hp.hctx <<< (-hp.curr).toNat) &&& htNMask
      let e := htEntry (offset + i)
      if 0 < e.shift then
        if e.shift ≤ hp.curr + htNBits then
          huffmanDecodeTail n { hp with curr := hp.curr - e.shift } 0 (out ++ [e.symbol])
        else
          some ⟨if tailPadded hp offset i then .ok else .drop, hp, out⟩
      else if e.shift < 0 then
        some ⟨if tailPadded hp offset i then .ok else .drop, hp, out⟩
      else
        some ⟨.drop, hp, out⟩

/-- Steps of `huffman_decode_tail` for the bits that are left. -/
def tailSteps (hp : HuffmanCtx) : Nat := (hp.curr + htNBits).toNat + 1

def huffmanDecodeTailS (hp : HuffmanCtx) (offset : Nat) (out : List UInt8) : Option HuffmanRes :=
  if hp.curr = -htMBits then
    some ⟨.drop, hp, out⟩
  else
    let i := (hp.hctx <<< (-hp.curr).toNat) &&& htMMask
    let e := htEntry (offset + i)
    if 0 < e.shift ∧ e.shift ≤ hp.curr + htNBits then
      let hp := { hp with curr := hp.curr - e.shift }
      huffmanDecodeTail (tailSteps hp) hp 0 (out ++ [e.symbol])
    else
      some ⟨.drop, hp, out⟩

/-- The variables of the decoding loops. -/
structure HuffmanState where
  hp : HuffmanCtx
  src : List UInt8
  offset : Nat
  out : List UInt8
  deriving DecidableEq, Repr

/-- How the loops are left: a byte is needed and the fragment has none, or the
string is refused. -/
inductive HuffmanStop where
  | noBytes (hp : HuffmanCtx) (offset : Nat) (out : List UInt8)
  | drop (hp : HuffmanCtx) (out : List UInt8)
  deriving DecidableEq, Repr

/-- A byte is taken from the fragment if one is needed. -/
def refill (need : Bool) (hp : HuffmanCtx) (src : List UInt8) :
    Option (HuffmanCtx × List UInt8) :=
  if need then
    match src with
    | [] => none
    | c :: src => some (setNext hp c, src)
  else
    some (hp, src)

/-- One turn of the inner loop of `tfw_huffman_decode`. -/
def huffmanLong (s : HuffmanState) : HuffmanState ⊕ HuffmanStop :=
  match refill (s.hp.curr ≤ 0) s.hp s.src with
  | none => .inr (.noBytes s.hp s.offset s.out)
  | some (hp, src) =>
    let i := (hp.hctx >>> hp.curr.toNat) &&& htNMask
    let e := htEntry (s.offset + i)
    if 0 < e.shift then
      .inl ⟨{ hp with curr := hp.curr - e.shift }, src, 0, s.out ++ [e.symbol]⟩
    else if e.shift < 0 ∧ e.offset ≠ 0 then
      .inl ⟨{ hp with curr := hp.curr + e.shift }, src, e.offset.toNat, s.out⟩
    else
      .inr (.drop { hp with curr := hp.curr + e.shift } s.out)

/-- The part of `tfw_huffman_decode` behind the inner loop, which looks three bits
up. -/
def huffmanShort (s : HuffmanState) : HuffmanState ⊕ HuffmanStop :=
  let hp := { s.hp with curr := s.hp.curr + (htNBits - htMBits) }
  match refill (hp.curr < 0) hp s.src with
  | none => .inr (.noBytes hp s.offset s.out)
  | some (hp, src) =>
    let i := (hp.hctx >>> hp.curr.toNat) &&& htMMask
    let e := htEntry (s.offset + i)
    if 0 < e.shift then
      .inl ⟨{ hp with curr := hp.curr - e.shift }, src, 0, s.out ++ [e.symbol]⟩
    else
      .inr (.drop hp s.out)

/-- The inner loop runs as long as the offset is that of a table with seven index
bits. -/
def huffmanStep (s : HuffmanState) : HuffmanState ⊕ HuffmanStop :=
  if s.offset < htSmall then huffmanLong s else huffmanShort s

/-- What `tfw_huffman_decode` returns when the loops are left. -/
def huffmanReturn : HuffmanStop → Option HuffmanRes
  | .drop hp out => some ⟨.drop, hp, out⟩
  | .noBytes hp offset out =>
    if hp.length ≠ 0 then
      some ⟨.postpone, hp, out⟩
    else if offset < htSmall then
      huffmanDecodeTail (tailSteps hp) hp offset out
    else
      huffmanDecodeTailS hp offset out

/-- `tfw_huffman_decode`, with the string decoded so far. -/
def tfwHuffmanDecode (hp : HuffmanCtx) (out : List UInt8) : List UInt8 → Option HuffmanRes
  | [] => some ⟨.ok, hp, out⟩
  | c :: src =>
    (iterate huffmanStep (8 * (src.length + 2)) ⟨setNext hp c, src, 0, out⟩).bind
      huffmanReturn

/-- The context before a string of `n` bytes. -/
def huffmanInit (n : Nat) : HuffmanCtx where
  length := n
  curr := -htNBits
  hctx := 0

/-- The fragments of a string are decoded one after another, as long as the calls
ask for more. -/
def decodeFragments (hp : HuffmanCtx) (out : List UInt8) : List (List UInt8) → Option HuffmanRes
  | [] => some ⟨.postpone, hp, out⟩
  | f :: fs => do
      let r ← tfwHuffmanDecode hp out f
      if r.ret = .postpone then decodeFragments r.hp r.out fs else some r

end Tempesta.Hpack
