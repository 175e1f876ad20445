/-!
# Numerals

Writing a number in a base, with as many digits as it needs or with a fixed number of them, and
reading one back below a bound. A numeral is read from its most significant digit; the first
character that is no digit, or the first digit that takes the value to the bound, ends the reading.
-/
namespace Mips.Numeral

/-- The digits of `n`, without leading zeros. Letters are lowercase. -/
def digits (base n : Nat) : String :=
  String.ofList (Nat.toDigits base n)

def decimal (n : Nat) : String :=
  digits 10 n

/-- A decimal number with a minus sign if it is negative. -/
def signedDecimal (z : Int) : String :=
  if z < 0 then "-" ++ decimal z.natAbs else decimal z.natAbs

/-- The last `width` digits of `n`, zeros included, the most significant one first. -/
def fixedDigits (base : Nat) : (width : Nat) → (n : Nat) → List Char
  | 0, _ => []
  | width + 1, n => fixedDigits base width (n / base) ++ [Nat.digitChar (n % base)]

@[simp] theorem length_fixedDigits (base width n : Nat) :
    (fixedDigits base width n).length = width := by
  induction width generalizing n with
  | zero => rfl
  | succ width ih => simp [fixedDigits, ih]

def fixed (base width n : Nat) : String :=
  String.ofList (fixedDigits base width n)

/-- The value of a digit in a base up to sixteen. Letters may have either case. -/
def digitValue? (base : Nat) (c : Char) : Option Nat :=
  let value :=
    if c.isDigit then c.toNat - '0'.toNat
    else if 'a' ≤ c && c ≤ 'f' then c.toNat - 'a'.toNat + 10
    else if 'A' ≤ c && c ≤ 'F' then c.toNat - 'A'.toNat + 10
    else base
  if value < base then some value else none

/-- Why a text is no numeral below the bound. -/
inductive ReadError where
  | empty
  | badDigit
  | tooBig
  deriving DecidableEq

/-- Continues a numeral whose digits so far have the value `value`. -/
def readFrom (base bound value : Nat) : List Char → Except ReadError Nat
  | [] => .ok value
  | c :: rest =>
    match digitValue? base c with
    | none => .error .badDigit
    | some d =>
      let next := value * base + d
      if next < bound then readFrom base bound next rest else .error .tooBig

/-- The value of a numeral, which is less than `bound`. -/
def read (base bound : Nat) : List Char → Except ReadError Nat
  | [] => .error .empty
  | text => readFrom base bound 0 text

end Mips.Numeral
