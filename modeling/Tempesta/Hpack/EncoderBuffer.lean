import Tempesta.Lib.RbHeap
import Tempesta.Str

/-!
The ring buffer of the HPACK encoder table and the nodes in it. The buffer is
an array of eight-byte words, and a node pointer counts words, since nodes are
aligned to eight bytes. A node takes the word with `rindex`, the word with
`hdr_len`, `color` and the three offsets, and the words of the header text.
Every word can be read in both ways, as fields and as bytes.
-/

namespace Tempesta.Hpack
open RbLib

/-- Eight bytes, named as the second word of a node. -/
structure Word where
  hdrLen : BitVec 15
  color : Color
  parent : Int16
  left : Int16
  right : Int16
  deriving DecidableEq, Repr

def Word.half (w : Word) : Nat → UInt16
  | 0 => UInt16.ofNat (w.hdrLen.toNat + if w.color = .black then 2 ^ 15 else 0)
  | 1 => w.parent.toUInt16
  | 2 => w.left.toUInt16
  | _ => w.right.toUInt16

def Word.byte (w : Word) (k : Nat) : UInt8 :=
  UInt8.ofNat ((w.half (k / 2)).toNat / 256 ^ (k % 2))

def Word.ofHalves (x : Nat → UInt16) : Word where
  hdrLen := BitVec.ofNat 15 (x 0).toNat
  color := if 2 ^ 15 ≤ (x 0).toNat then .black else .red
  parent := (x 1).toInt16
  left := (x 2).toInt16
  right := (x 3).toInt16

def Word.ofBytes (b : Nat → UInt8) : Word :=
  .ofHalves fun i => UInt16.ofNat ((b (2 * i)).toNat + 256 * (b (2 * i + 1)).toNat)

/-- The word that holds an `unsigned long`. -/
def Word.ofUInt64 (x : UInt64) : Word :=
  .ofBytes fun k => UInt8.ofNat (x.toNat / 256 ^ k)

def Word.toUInt64 (w : Word) : UInt64 :=
  UInt64.ofNat ((List.range 8).map fun k => (w.byte k).toNat * 256 ^ k).sum

/-- The buffer with the root of the tree in it. -/
structure TfwHPackTree where
  rbuf : Nat → Word
  root : Option Nat

/-- `HPACK_NODE_OFF`, as it is stored in a `short`. -/
def hpackNodeOff (node : Nat) : Int16 := Int16.ofNat (8 * node)

def hpackNodeCondOff : Option Nat → Int16
  | none => -1
  | some node => hpackNodeOff node

def hpackNodeEmpty (off : Int16) : Bool := off < 0

/-- `HPACK_NODE_COND`. An offset that is not aligned refers to no node, and its
use is outside the C semantics. -/
def hpackNodeCond (off : Int16) : Option (Option Nat) :=
  if hpackNodeEmpty off then some none
  else if off.toNatClampNeg % 8 = 0 then some (some (off.toNatClampNeg / 8))
  else none

namespace TfwHPackTree

def color (t : TfwHPackTree) (p : Nat) : Color := (t.rbuf (p + 1)).color

def parent (t : TfwHPackTree) (p : Nat) : Int16 := (t.rbuf (p + 1)).parent

def kid (t : TfwHPackTree) (d : Dir) (p : Nat) : Int16 :=
  match d with
  | .left => (t.rbuf (p + 1)).left
  | .right => (t.rbuf (p + 1)).right

def hdrLen (t : TfwHPackTree) (p : Nat) : Nat := (t.rbuf (p + 1)).hdrLen.toNat

def rindex (t : TfwHPackTree) (p : Nat) : UInt64 := (t.rbuf p).toUInt64

def setWord (t : TfwHPackTree) (i : Nat) (w : Word) : TfwHPackTree :=
  { t with rbuf := fun j => if j = i then w else t.rbuf j }

def setColor (t : TfwHPackTree) (p : Nat) (c : Color) : TfwHPackTree :=
  t.setWord (p + 1) { t.rbuf (p + 1) with color := c }

def setParent (t : TfwHPackTree) (p : Nat) (off : Int16) : TfwHPackTree :=
  t.setWord (p + 1) { t.rbuf (p + 1) with parent := off }

def setKid (t : TfwHPackTree) (d : Dir) (p : Nat) (off : Int16) : TfwHPackTree :=
  match d with
  | .left => t.setWord (p + 1) { t.rbuf (p + 1) with left := off }
  | .right => t.setWord (p + 1) { t.rbuf (p + 1) with right := off }

def setHdrLen (t : TfwHPackTree) (p : Nat) (len : Nat) : TfwHPackTree :=
  t.setWord (p + 1) { t.rbuf (p + 1) with hdrLen := BitVec.ofNat 15 len }

def setRindex (t : TfwHPackTree) (p : Nat) (x : UInt64) : TfwHPackTree :=
  t.setWord p (.ofUInt64 x)

/-- The byte at an address, counted from the start of the buffer. -/
def byteAt (t : TfwHPackTree) (addr : Nat) : UInt8 := (t.rbuf (addr / 8)).byte (addr % 8)

def setByte (t : TfwHPackTree) (addr : Nat) (b : UInt8) : TfwHPackTree :=
  t.setWord (addr / 8)
    (.ofBytes fun k => if k = addr % 8 then b else (t.rbuf (addr / 8)).byte k)

def setBytes (t : TfwHPackTree) (addr : Nat) : List UInt8 → TfwHPackTree
  | [] => t
  | b :: bs => (t.setByte addr b).setBytes (addr + 1) bs

def hdrAddr (p : Nat) : Nat := 8 * p + 16

/-- The header text of a node, as long as its `hdr_len` says. -/
def hdrText (t : TfwHPackTree) (p : Nat) : List UInt8 :=
  (List.range (t.hdrLen p)).map fun i => t.byteAt (hdrAddr p + i)

def links (t : TfwHPackTree) (p : Nat) : Links Int16 :=
  ⟨t.color p, t.parent p, t.kid .left p, t.kid .right p⟩

section Links
variable (t : TfwHPackTree) (d : Dir) (p q : Nat) (c : Color) (off : Int16)

lemma color_eq : t.color p = (t.links p).color := rfl

lemma parent_eq : t.parent p = (t.links p).parent := rfl

lemma kid_eq : t.kid d p = (t.links p).kid d := by
  cases d <;> rfl

lemma links_setColor : (t.setColor p c).links q =
    if q = p then (t.links p).setColor c else t.links q := by
  by_cases h : q = p
  · simp [links, color, parent, kid, setColor, setWord, Links.setColor, h]
  · simp [links, color, parent, kid, setColor, setWord, h]

lemma links_setParent : (t.setParent p off).links q =
    if q = p then (t.links p).setParent off else t.links q := by
  by_cases h : q = p
  · simp [links, color, parent, kid, setParent, setWord, Links.setParent, h]
  · simp [links, color, parent, kid, setParent, setWord, h]

lemma links_setKid : (t.setKid d p off).links q =
    if q = p then (t.links p).setKid d off else t.links q := by
  by_cases h : q = p
  · cases d <;> simp [links, color, parent, kid, setKid, setWord, Links.setKid, h]
  · cases d <;> simp [links, color, parent, kid, setKid, setWord, h]

@[simp] lemma root_setColor : (t.setColor p c).root = t.root := rfl

@[simp] lemma root_setParent : (t.setParent p off).root = t.root := rfl

@[simp] lemma root_setKid : (t.setKid d p off).root = t.root := by
  cases d <;> rfl

end Links

end TfwHPackTree

@[simp] lemma hpackNodeCondOff_some (p : Nat) : hpackNodeCondOff (some p) = hpackNodeOff p := rfl

lemma hpackNodeOff_toInt {p : Nat} (h : p < 512) :
    (hpackNodeOff p).toInt = (8 * p : Nat) :=
  Int16.toInt_ofNat_of_lt (by omega)

lemma hpackNodeOff_not_empty {p : Nat} (h : p < 512) :
    hpackNodeEmpty (hpackNodeOff p) = false := by
  simp only [hpackNodeEmpty, decide_eq_false_iff_not, Int16.lt_iff_toInt_lt,
    hpackNodeOff_toInt h, Int16.toInt_zero]
  omega

lemma hpackNodeCond_condOff {x : Option Nat} (h : ∀ p, x = some p → p < 512) :
    hpackNodeCond (hpackNodeCondOff x) = some x := by
  cases x with
  | none => rfl
  | some p =>
    have hp := h p rfl
    have hnat : (hpackNodeOff p).toNatClampNeg = 8 * p := by
      simp only [Int16.toNatClampNeg, hpackNodeOff_toInt hp, Int.toNat_natCast]
    simp [hpackNodeCondOff, hpackNodeCond, hpackNodeOff_not_empty hp, hnat]

end Tempesta.Hpack
