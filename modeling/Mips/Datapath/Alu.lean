import Mips.Word

/-!
# The arithmetic unit

One operation on two words. All arithmetic wraps; comparisons give one or zero.
-/
namespace Mips

inductive Alu where
  | add | sub | and | or
  /-- Whether the first operand is less than the second, as signed numbers. -/
  | slt
  | mul | xor | nor
  /-- The first operand shifted left by the second. -/
  | sll
  /-- The first operand shifted right by the second, with zeros moving in. -/
  | srl
  /-- The second operand moved to the upper half. -/
  | lui
  | eq | ne
  deriving DecidableEq

namespace Alu

/-- The word that stands for a truth value. -/
def ofBool (b : Bool) : Word :=
  if b then 1 else 0

/-- The amount of a shift is the low five bits of a word. -/
def shiftAmount (w : Word) : Nat :=
  (w.setWidth 5).toNat

def apply (f : Alu) (a b : Word) : Word :=
  match f with
  | add => a + b
  | sub => a - b
  | and => a &&& b
  | or => a ||| b
  | slt => ofBool (a.slt b)
  | mul => a * b
  | xor => a ^^^ b
  | nor => ~~~(a ||| b)
  | sll => a <<< shiftAmount b
  | srl => a >>> shiftAmount b
  | lui => b <<< 16
  | eq => ofBool (a == b)
  | ne => ofBool (a != b)

end Alu

end Mips
