import Mips.MachineInstr.Encoding
import Mips.Program
import Mips.Text.Padding

/-!
# Listings

A listing shows the machine code of a program: a heading, and a line for each word. The first line
of an instruction has its address and its text; lines of further words leave these columns blank.
-/
namespace Mips.Program

/-- The heading of the text column, which is never narrower. -/
def textHeading : String := "Instruction"

/-- The width of the text column: the most bytes that a text in it has. -/
def textWidth (p : Program) : Nat :=
  p.slots.foldl
    (fun width slot => max width (((p.slotText? slot).map String.utf8ByteSize).getD 0))
    textHeading.utf8ByteSize

/-- One line with its three columns. -/
def listingLine (width : Nat) (address text code : String) : String :=
  Text.padRight 10 address ++ "  " ++ Text.padRight width text ++ "  " ++ code ++ "\n"

def slotLines (width : Nat) (address : Word) (text : String) : List MachineInstr → List String
  | [] => []
  | word :: rest =>
    listingLine width address.addressText text word.encode.bitsText ::
      rest.map fun word => listingLine width "" "" word.encode.bitsText

def codeLines (p : Program) : List String :=
  let width := p.textWidth
  p.slots.toList.zipIdx.flatMap fun (slot, index) =>
    slotLines width (Layout.slotAddress index) ((p.slotText? slot).getD "") slot.words

def listing (p : Program) : String :=
  listingLine p.textWidth "Address" textHeading "Machine code" ++ String.join p.codeLines

end Mips.Program
