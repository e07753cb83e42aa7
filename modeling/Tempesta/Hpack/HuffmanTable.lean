import Tempesta.Str

/-!
Decoding tables of the Huffman code. An entry with a positive shift is a symbol,
and the shift is the number of bits that its code word takes from this table; an
entry with a negative shift leads to the table at its offset, or, with offset
zero, is the end-of-string code. In the tables of eight entries four bits, the
difference of the two index widths, are added to the shifts of symbols.
-/

namespace Tempesta.Hpack

structure HTState where
  shift : Int
  offset : Int
  deriving DecidableEq, Repr

def htNBits : Nat := 7
def htMBits : Nat := 3
def htNMask : Nat := 127
def htMMask : Nat := 7
def htSmall : Nat := 640
def htEosHigh : Nat := 0xFF

/-- `ht_decode`, in rows of eight entries: how many of them stand one behind the other,
with their shift and offset. -/
def htDecode : List (List (Nat × Int × Int)) := [
  [(4, 5, 48), (4, 5, 49)], [(4, 5, 50), (4, 5, 97)], [(4, 5, 99), (4, 5, 101)],
  [(4, 5, 105), (4, 5, 111)], [(4, 5, 115), (4, 5, 116)],
  [(2, 6, 32), (2, 6, 37), (2, 6, 45), (2, 6, 46)],
  [(2, 6, 47), (2, 6, 51), (2, 6, 52), (2, 6, 53)],
  [(2, 6, 54), (2, 6, 55), (2, 6, 56), (2, 6, 57)],
  [(2, 6, 61), (2, 6, 65), (2, 6, 95), (2, 6, 98)],
  [(2, 6, 100), (2, 6, 102), (2, 6, 103), (2, 6, 104)],
  [(2, 6, 108), (2, 6, 109), (2, 6, 110), (2, 6, 112)],
  [(2, 6, 114), (2, 6, 117), (1, 7, 58), (1, 7, 66), (1, 7, 67), (1, 7, 68)],
  [(1, 7, 69), (1, 7, 70), (1, 7, 71), (1, 7, 72), (1, 7, 73), (1, 7, 74), (1, 7, 75), (1, 7, 76)],
  [(1, 7, 77), (1, 7, 78), (1, 7, 79), (1, 7, 80), (1, 7, 81), (1, 7, 82), (1, 7, 83), (1, 7, 84)],
  [(1, 7, 85), (1, 7, 86), (1, 7, 87), (1, 7, 89), (1, 7, 106), (1, 7, 107), (1, 7, 113),
    (1, 7, 118)],
  [(1, 7, 119), (1, 7, 120), (1, 7, 121), (1, 7, 122), (1, -7, 640), (1, -7, 648), (1, -7, 656),
    (1, -7, 128)],
  [(8, 3, 33)], [(8, 3, 33)], [(8, 3, 34)], [(8, 3, 34)], [(8, 3, 40)], [(8, 3, 40)], [(8, 3, 41)],
  [(8, 3, 41)], [(8, 3, 63)], [(8, 3, 63)], [(8, 4, 39)], [(8, 4, 43)], [(8, 4, 124)],
  [(4, 5, 35), (4, 5, 62)], [(2, 6, 0), (2, 6, 36), (2, 6, 64), (2, 6, 91)],
  [(2, 6, 93), (2, 6, 126), (1, 7, 94), (1, 7, 125), (1, -7, 664), (1, -7, 256)], [(8, 1, 123)],
  [(8, 1, 123)], [(8, 1, 123)], [(8, 1, 123)], [(8, 1, 123)], [(8, 1, 123)], [(8, 1, 123)],
  [(8, 1, 123)], [(4, 5, 92), (4, 5, -61)], [(4, 5, -48), (2, 6, -128), (2, 6, -126)],
  [(2, 6, -125), (2, 6, -94), (2, 6, -72), (2, 6, -62)],
  [(2, 6, -32), (2, 6, -30), (1, 7, -103), (1, 7, -95), (1, 7, -89), (1, 7, -84)],
  [(1, 7, -80), (1, 7, -79), (1, 7, -77), (1, 7, -47), (1, 7, -40), (1, 7, -39), (1, 7, -29),
    (1, 7, -27)],
  [(1, 7, -26), (1, -7, 672), (1, -7, 680), (1, -7, 688), (1, -7, 696), (1, -7, 704),
    (1, -7, 712), (1, -7, 720)],
  [(1, -7, 728), (1, -7, 736), (1, -7, 744), (1, -7, 752), (1, -7, 760), (1, -7, 768),
    (1, -7, 776), (1, -7, 784)],
  [(1, -7, 792), (1, -7, 800), (1, -7, 808), (1, -7, 816), (1, -7, 824), (1, -7, 832),
    (1, -7, 384), (1, -7, 512)],
  [(8, 3, -85)], [(8, 3, -85)], [(8, 3, -50)], [(8, 3, -50)], [(8, 3, -41)], [(8, 3, -41)],
  [(8, 3, -31)], [(8, 3, -31)], [(8, 3, -20)], [(8, 3, -20)], [(8, 3, -19)], [(8, 3, -19)],
  [(8, 4, -57)], [(8, 4, -49)], [(8, 4, -22)], [(8, 4, -21)], [(4, 5, -64), (4, 5, -63)],
  [(4, 5, -56), (4, 5, -55)], [(4, 5, -54), (4, 5, -51)], [(4, 5, -46), (4, 5, -43)],
  [(4, 5, -38), (4, 5, -37)], [(4, 5, -18), (4, 5, -16)], [(4, 5, -14), (4, 5, -13)],
  [(4, 5, -1), (2, 6, -53), (2, 6, -52)], [(2, 6, -45), (2, 6, -44), (2, 6, -42), (2, 6, -35)],
  [(2, 6, -34), (2, 6, -33), (2, 6, -15), (2, 6, -12)],
  [(2, 6, -11), (2, 6, -10), (2, 6, -9), (2, 6, -8)],
  [(2, 6, -6), (2, 6, -5), (2, 6, -4), (2, 6, -3)],
  [(2, 6, -2), (1, 7, 2), (1, 7, 3), (1, 7, 4), (1, 7, 5), (1, 7, 6), (1, 7, 7)],
  [(1, 7, 8), (1, 7, 11), (1, 7, 12), (1, 7, 14), (1, 7, 15), (1, 7, 16), (1, 7, 17), (1, 7, 18)],
  [(1, 7, 19), (1, 7, 20), (1, 7, 21), (1, 7, 23), (1, 7, 24), (1, 7, 25), (1, 7, 26), (1, 7, 27)],
  [(1, 7, 28), (1, 7, 29), (1, 7, 30), (1, 7, 31), (1, 7, 127), (1, 7, -36), (1, 7, -7),
    (1, -7, 840)],
  [(4, 5, 38), (4, 5, 42)], [(4, 5, 44), (4, 5, 59)], [(4, 5, 88), (4, 5, 90)],
  [(4, 5, 60), (4, 5, 96)], [(4, 5, -127), (4, 5, -124)], [(4, 5, -123), (4, 5, -122)],
  [(4, 5, -120), (4, 5, -110)], [(4, 5, -102), (4, 5, -100)], [(4, 5, -96), (4, 5, -93)],
  [(4, 5, -92), (4, 5, -87)], [(4, 5, -86), (4, 5, -83)], [(4, 5, -78), (4, 5, -75)],
  [(4, 5, -71), (4, 5, -70)], [(4, 5, -69), (4, 5, -67)], [(4, 5, -66), (4, 5, -60)],
  [(4, 5, -58), (4, 5, -28)], [(4, 5, -24), (4, 5, -23)],
  [(2, 6, 1), (2, 6, -121), (2, 6, -119), (2, 6, -118)],
  [(2, 6, -117), (2, 6, -116), (2, 6, -115), (2, 6, -113)],
  [(2, 6, -109), (2, 6, -107), (2, 6, -106), (2, 6, -105)],
  [(2, 6, -104), (2, 6, -101), (2, 6, -99), (2, 6, -98)],
  [(2, 6, -91), (2, 6, -90), (2, 6, -88), (2, 6, -82)],
  [(2, 6, -81), (2, 6, -76), (2, 6, -74), (2, 6, -73)],
  [(2, 6, -68), (2, 6, -65), (2, 6, -59), (2, 6, -25)],
  [(2, 6, -17), (1, 7, 9), (1, 7, -114), (1, 7, -112), (1, 7, -111), (1, 7, -108), (1, 7, -97)],
  [(2, 6, 10), (2, 6, 13), (2, 6, 22), (2, -6, 0)]]

/-- `ht_decode[k]` -/
def htEntry (k : Nat) : HTState :=
  let row := (htDecode.getD (k / 8) []).flatMap fun e => List.replicate e.1 ⟨e.2.1, e.2.2⟩
  row.getD (k % 8) ⟨0, 0⟩

/-- The symbol of an entry: its offset, as a character. -/
def HTState.symbol (e : HTState) : UInt8 := UInt8.ofInt e.offset

def IsTable (offset : Nat) : Prop :=
  offset < htSmall ∧ offset % 128 = 0 ∨ htSmall ≤ offset ∧ offset ≤ 840 ∧ offset % 8 = 0

instance (offset : Nat) : Decidable (IsTable offset) := by
  unfold IsTable
  infer_instance

/-- What an entry of a table with seven index bits is: a symbol of at most seven
bits, or a jump to another table. -/
def HTState.IsLong (e : HTState) : Prop :=
  0 < e.shift ∧ e.shift ≤ 7 ∨ e.shift = -7 ∧ 0 < e.offset ∧ IsTable e.offset.toNat

instance (e : HTState) : Decidable e.IsLong := by
  unfold HTState.IsLong
  infer_instance

/-- What an entry of a table with three index bits is: a symbol of at most three
bits, or a part of the end-of-string code. -/
def HTState.IsShort (e : HTState) : Prop :=
  4 < e.shift ∧ e.shift ≤ 7 ∨ e.shift < 0

instance (e : HTState) : Decidable e.IsShort := by
  unfold HTState.IsShort
  infer_instance

lemma htEntry_isLong : ∀ k < 640, (htEntry k).IsLong := by
  decide +kernel

lemma htEntry_isShort : ∀ k < 848, 640 ≤ k → (htEntry k).IsShort := by
  decide +kernel

end Tempesta.Hpack
