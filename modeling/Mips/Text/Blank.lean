/-!
# Blanks at the ends of a line

The white space that is trimmed from the two ends of a source line is that of Unicode, not only
the space and the tab that separate tokens.
-/
namespace Mips.Text

/-- White space of any script. -/
def isBlank (c : Char) : Bool :=
  let n := c.toNat
  (0x9 ≤ n && n ≤ 0xD) || n == 0x20 || n == 0x85 || n == 0xA0 || n == 0x1680 ||
    (0x2000 ≤ n && n ≤ 0x200A) || n == 0x2028 || n == 0x2029 || n == 0x202F || n == 0x205F ||
    n == 0x3000

end Mips.Text
