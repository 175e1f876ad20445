import Mips.Text.Numeral

/-!
# Machine words

Registers, memory cells, addresses and instructions are words of 32 bits. Arithmetic on them wraps.
A word is shown as a signed decimal number, as an address in hexadecimal or as its bits.
-/
namespace Mips

abbrev Word := BitVec 32

/-- Addresses are ordered as numbers without a sign. -/
instance : Std.TransOrd Word := inferInstance

namespace Word

/-- The word with the bits of an integer in two's complement. -/
def ofInt (z : Int) : Word :=
  BitVec.ofInt 32 z

def signedText (w : Word) : String :=
  Numeral.signedDecimal w.toInt

/-- All eight hexadecimal digits, as addresses are written. -/
def addressText (w : Word) : String :=
  "0x" ++ Numeral.fixed 16 8 w.toNat

/-- As few hexadecimal digits as the value needs. -/
def hexText (w : Word) : String :=
  "0x" ++ Numeral.digits 16 w.toNat

/-- The 32 bits, the most significant one first. -/
def bitsText (w : Word) : String :=
  Numeral.fixed 2 32 w.toNat

end Word

end Mips
