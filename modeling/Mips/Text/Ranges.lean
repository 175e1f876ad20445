/-!
# Character classes as ranges of code points

A class of non-ASCII characters is a list of closed ranges in ascending order.
-/
namespace Mips.Text

/-- Whether one of the closed ranges holds the code point of `c`. -/
def inRanges (ranges : List (Nat × Nat)) (c : Char) : Bool :=
  ranges.any fun range => range.1 ≤ c.toNat && c.toNat ≤ range.2

end Mips.Text
