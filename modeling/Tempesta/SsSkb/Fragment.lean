import Mathlib

/-!
Socket buffers. A message is a list of them, and each one has a linear part and up to
`MAX_SKB_FRAGS` fragments of pages. Data is put into the list or taken out of it without
being copied: fragments are split, and moved to the next buffer if there are too many of them.
-/

namespace Tempesta.SsSkb

def maxSkbFrags : Nat := 17

def pageSize : Nat := 4096

/-- A part of a buffer: where its bytes are in memory, and the bytes. -/
structure Frag where
  addr : Nat
  data : List UInt8
  deriving DecidableEq, Repr

/-- The bytes from an address on, each with its own address -/
def cellsAt (addr : Nat) : List UInt8 → List (Nat × UInt8)
  | [] => []
  | b :: data => (addr, b) :: cellsAt (addr + 1) data

namespace Frag

def size (f : Frag) : Nat := f.data.length

def cells (f : Frag) : List (Nat × UInt8) := cellsAt f.addr f.data

/-- The first `n` bytes -/
def upto (f : Frag) (n : Nat) : Frag := ⟨f.addr, f.data.take n⟩

/-- All but the first `n` bytes -/
def behind (f : Frag) (n : Nat) : Frag := ⟨f.addr + n, f.data.drop n⟩

/-- `addr <= p && p < addr + size` -/
def Has (f : Frag) (p : Nat) : Prop := f.addr ≤ p ∧ p < f.addr + f.size

instance (f : Frag) (p : Nat) : Decidable (f.Has p) := instDecidableAnd

end Frag

def hole : Frag := ⟨0, []⟩

/-- `sk_buff`: `room` is `end - tail`. -/
structure SkBuff where
  linear : Frag
  room : Nat
  tailLock : Bool
  frags : List Frag
  len : Nat
  dataLen : Nat
  deriving DecidableEq, Repr

namespace SkBuff

/-- `skb_headlen` -/
def headlen (s : SkBuff) : Nat := s.len - s.dataLen

/-- `skb_tailroom_locked` -/
def tailroomLocked (s : SkBuff) : Nat := if s.tailLock then 0 else s.room

def cells (s : SkBuff) : List (Nat × UInt8) := s.linear.cells ++ s.frags.flatMap Frag.cells

/-- `ss_skb_adjust_data_len` for more data -/
def grow (s : SkBuff) (n : Nat) : SkBuff := { s with len := s.len + n, dataLen := s.dataLen + n }

/-- `ss_skb_adjust_data_len` for less data -/
def shrink (s : SkBuff) (n : Nat) : SkBuff := { s with len := s.len - n, dataLen := s.dataLen - n }

/-- `__skb_fill_page_desc`, which is not seen in a slot beyond `nr_frags`. -/
def fillPageDesc (s : SkBuff) (i : Nat) (f : Frag) : SkBuff := { s with frags := s.frags.set i f }

end SkBuff

def cells (skbs : List SkBuff) : List (Nat × UInt8) := skbs.flatMap SkBuff.cells

/-- The memory there is: an address for a new fragment, in a new page or in one that is
there, and a new buffer with its address and its room; what the memory holds is `fill`. -/
structure SkbEnv where
  page : Option Nat
  nskb : Option (Nat × Nat)
  fill : Nat → UInt8

/-- `ss_skb_alloc(0)` with slots for fragments -/
def ssSkbAlloc (env : SkbEnv) (n : Nat) : Option SkBuff :=
  env.nskb.map fun (addr, room) => ⟨⟨addr, []⟩, room, false, List.replicate n hole, 0, 0⟩

/-- The buffer that takes what is too much for the one before it: the next one if it has no
linear part and slots enough, or a new one -/
def spillTo (env : SkbEnv) (next : List SkBuff) (excess : Nat) : Option (SkBuff × List SkBuff) :=
  match next with
  | [] => (ssSkbAlloc env excess).map fun nskb => (nskb, next)
  | nskb :: rest =>
    if nskb.headlen = 0 ∧ nskb.frags.length ≤ maxSkbFrags - excess then
      some ({ nskb with frags := List.replicate excess hole ++ nskb.frags }, rest)
    else (ssSkbAlloc env excess).map fun nskb => (nskb, next)

/-- `__extend_pgfrags`: `n` free slots from `i` on, in a list that may become longer. -/
def extendPgfrags (env : SkbEnv) (skb : SkBuff) (next : List SkBuff) (i n : Nat) :
    Option (SkBuff × List SkBuff) :=
  let nrFrags := skb.frags.length
  let tailFrags := nrFrags - i
  let slots := skb.frags.take i ++ List.replicate n hole
  if nrFrags + n ≤ maxSkbFrags then
    some ({ skb with frags := slots ++ skb.frags.drop i }, next)
  else
    let excess := nrFrags + n - maxSkbFrags
    (spillTo env next excess).bind fun (nskb, rest) =>
      if tailFrags = 0 then some (skb, nskb :: rest)
      else
        let moved := skb.frags.drop (nrFrags - min excess tailFrags)
        let eSize := (moved.map Frag.size).sum
        let nskb := { nskb with
          frags := nskb.frags.take (excess - moved.length) ++ moved ++ nskb.frags.drop excess }
        let kept := (skb.frags.drop i).take (tailFrags - excess)
        some (SkBuff.shrink { skb with frags := (slots ++ kept).take maxSkbFrags } eSize,
          nskb.grow eSize :: rest)

def newPgfrag (env : SkbEnv) (skb : SkBuff) (next : List SkBuff) (size i shift : Nat) :
    Option (SkBuff × List SkBuff) :=
  env.page.bind fun page =>
    (extendPgfrags env skb next i shift).bind fun (skb, next) =>
      let frag : Frag := ⟨page, (List.range size).map env.fill⟩
      if i = maxSkbFrags then
        match next with
        | [] => none
        | nskb :: rest => some (skb, (nskb.fillPageDesc 0 frag).grow size :: rest)
      else some ((skb.fillPageDesc i frag).grow size, next)

/-- A place in a buffer: in the linear part, or in a fragment -/
inductive Place where
  | linear (off : Nat)
  | frag (i off : Nat)
  deriving DecidableEq, Repr

/-- `it->skb`, as the number of steps from the buffer that was given, and `it->data` -/
structure It where
  skb : Nat
  data : Place
  deriving DecidableEq, Repr

def itNextData (skb : SkBuff) (next : List SkBuff) (i : Nat) : Option It :=
  if i < skb.frags.length then some ⟨0, .frag i 0⟩
  else
    match next with
    | [] => none
    | nskb :: _ =>
      if nskb.headlen ≠ 0 then some ⟨1, .linear 0⟩
      else if nskb.frags.length ≠ 0 then some ⟨1, .frag 0 0⟩
      else none

/-- `__split_linear_data` for new data before the byte at `off` -/
def splitLinearAdd (env : SkbEnv) (skb : SkBuff) (next : List SkBuff) (off len : Nat) :
    Option (SkBuff × List SkBuff × It) :=
  let tailLen := skb.linear.size - off
  (newPgfrag env skb next len 0 2).map fun (skb, next) =>
    let tail := skb.linear.behind off
    let skb := { skb with linear := skb.linear.upto off, dataLen := skb.dataLen + tailLen }
    ({ skb.fillPageDesc 1 tail with tailLock := true }, next, ⟨0, .frag 0 0⟩)

/-- `__split_linear_data` for the `len` bytes from `off` on to be deleted. -/
def splitLinearDel (env : SkbEnv) (skb : SkBuff) (next : List SkBuff) (off len : Nat) :
    Option (SkBuff × List SkBuff) :=
  let tailLen := skb.linear.size - off
  if tailLen = len then
    some ({ skb with
      linear := skb.linear.upto off, len := skb.len - len, room := skb.room + len }, next)
  else
    (extendPgfrags env skb next 0 1).map fun (skb, next) =>
      let tailLen := tailLen - len
      let tail := skb.linear.behind (off + len)
      let skb := { skb with
        linear := skb.linear.upto off, len := skb.len - len, dataLen := skb.dataLen + tailLen }
      ({ skb.fillPageDesc 0 tail with tailLock := true }, next)

def splitPgfragAdd (env : SkbEnv) (skb : SkBuff) (next : List SkBuff) (i off len : Nat) :
    Option (SkBuff × List SkBuff × It) :=
  if off = 0 then
    (newPgfrag env skb next len i 1).map fun (skb, next) => (skb, next, ⟨0, .frag i 0⟩)
  else
    (newPgfrag env skb next len (i + 1) 2).bind fun (skb, next) =>
      let frag := skb.frags.getD i hole
      let tail := frag.behind off
      let skb := skb.fillPageDesc i (frag.upto off)
      let it : It := if i < maxSkbFrags - 1 then ⟨0, .frag (i + 1) 0⟩ else ⟨1, .frag 0 0⟩
      if i < maxSkbFrags - 2 then some (skb.fillPageDesc (i + 2) tail, next, it)
      else
        match next with
        | [] => none
        | nskb :: rest =>
          let nskb := nskb.fillPageDesc ((i + 2) % maxSkbFrags) tail
          some (skb.shrink tail.size, nskb.grow tail.size :: rest, it)

/-- `__split_pgfrag_del_w_frag` -/
def splitPgfragDel (env : SkbEnv) (skb : SkBuff) (next : List SkBuff) (i off len : Nat) :
    Option (SkBuff × List SkBuff) :=
  let frag := skb.frags.getD i hole
  if frag.size < off + len then none
  else if off = 0 ∧ len = frag.size then
    some (SkBuff.shrink { skb with frags := skb.frags.take i ++ skb.frags.drop (i + 1) } len, next)
  else if off = 0 then some ((skb.fillPageDesc i (frag.behind len)).shrink len, next)
  else if off + len = frag.size then
    some ((skb.fillPageDesc i (frag.upto off)).shrink len, next)
  else
    (extendPgfrags env skb next (i + 1) 1).bind fun (skb, next) =>
      let tail := frag.behind (off + len)
      let skb := skb.fillPageDesc i (frag.upto off)
      if i < maxSkbFrags - 1 then some ((skb.fillPageDesc (i + 1) tail).shrink len, next)
      else
        match next with
        | [] => none
        | nskb :: rest =>
          let nskb := nskb.fillPageDesc ((i + 1) % maxSkbFrags) tail
          some ((skb.shrink tail.size).shrink len, nskb.grow tail.size :: rest)

/-- Where new data goes in a buffer: into the linear part, between it and the fragments, into
a fragment or behind one -/
inductive Spot where
  | linear (off : Nat)
  | front
  | inside (i off : Nat)
  | after (i : Nat)
  deriving DecidableEq, Repr

/-- How `__skb_fragment` finds the place of new data from its address -/
def locate (skb : SkBuff) (pspt : Nat) : Option Spot :=
  if skb.linear.addr ≤ pspt ∧ pspt < skb.linear.addr + skb.headlen then
    some (.linear (pspt - skb.linear.addr))
  else if pspt = skb.linear.addr + skb.headlen ∨ skb.frags.head?.map Frag.addr = some pspt then
    some .front
  else
    match skb.frags.findIdx? fun f => decide (f.Has pspt) with
    | some i => some (.inside i (pspt - (skb.frags.getD i hole).addr))
    | none =>
      (skb.frags.reverse.findIdx? fun f => decide (pspt = f.addr + f.size)).map fun i =>
        .after (skb.frags.length - 1 - i)

/-- `ss_skb_get_room` for `len` bytes, not zero, before the address `pspt` in `skb` -/
def ssSkbGetRoom (env : SkbEnv) (skb : SkBuff) (next : List SkBuff) (pspt len : Nat) :
    Option (SkBuff × List SkBuff × It) :=
  if pageSize < len then none
  else
    match locate skb pspt with
    | none => none
    | some (.linear off) => splitLinearAdd env skb next off len
    | some .front =>
      if len ≤ skb.tailroomLocked then
        some ({ skb with
            linear := ⟨skb.linear.addr, skb.linear.data ++ (List.range len).map env.fill⟩
            room := skb.room - len
            len := skb.len + len }, next, ⟨0, .linear skb.linear.size⟩)
      else
        (newPgfrag env skb next len 0 1).bind fun (skb, next) =>
          (itNextData skb next 0).map fun it => (skb, next, it)
    | some (.inside i off) => splitPgfragAdd env skb next i off len
    | some (.after i) =>
      (newPgfrag env skb next len (i + 1) 1).bind fun (skb, next) =>
        (itNextData skb next (i + 1)).map fun it => (skb, next, it)

end Tempesta.SsSkb
