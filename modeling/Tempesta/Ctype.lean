import Mathlib

/-!
Character classes of the kernel, whose table goes on with Latin-1 above ASCII.
-/

namespace Tempesta.Ctype

def isDigit (c : UInt8) : Bool := 0x30 ≤ c && c ≤ 0x39

def isXdigit (c : UInt8) : Bool :=
  isDigit c || (0x41 ≤ c && c ≤ 0x46) || (0x61 ≤ c && c ≤ 0x66)

def isAlpha (c : UInt8) : Bool :=
  (0x41 ≤ c && c ≤ 0x5a) || (0x61 ≤ c && c ≤ 0x7a) || (0xc0 ≤ c && c != 0xd7 && c != 0xf7)

def isAlnum (c : UInt8) : Bool := isDigit c || isAlpha c

end Tempesta.Ctype
