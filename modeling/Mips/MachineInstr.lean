import Mips.Mnemonic
import Mips.Register
import Mips.Word

/-!
# Machine instructions

The instructions that one word holds. Operands are in assembly order, and every field has exactly
the bits that the word gives it. Branches count words from the instruction after them; jumps name
a word of memory.
-/
namespace Mips

/-- The three layouts of a word. -/
inductive Format where
  | r | i | j
  deriving DecidableEq

inductive MachineInstr where
  | reg (op : RegOp) (rd rs rt : Register)
  | shift (op : ShiftOp) (rd rt : Register) (amount : BitVec 5)
  | jr (rs : Register)
  | syscall
  | imm (op : ImmOp) (rt rs : Register) (value : BitVec 16)
  | lui (rt : Register) (value : BitVec 16)
  | mem (op : MemOp) (rt base : Register) (offset : BitVec 16)
  | branch (op : BranchOp) (rs rt : Register) (offset : BitVec 16)
  | jump (op : JumpOp) (target : BitVec 26)
  deriving DecidableEq

namespace MachineInstr

def mnemonic : MachineInstr → Mnemonic
  | reg op .. => .reg op
  | shift op .. => .shift op
  | jr _ => .jr
  | syscall => .syscall
  | imm op .. => .imm op
  | lui .. => .lui
  | mem op .. => .mem op
  | branch op .. => .branch op
  | jump op _ => .jump op

def format : MachineInstr → Format
  | reg .. | shift .. | jr _ | syscall => .r
  | imm .. | lui .. | mem .. | branch .. => .i
  | jump .. => .j

/-- Where a branch at `pc` leads when it is taken. -/
def branchTarget? (pc : Word) : MachineInstr → Option Word
  | branch _ _ _ offset => some (pc + 4 + (offset.signExtend 32 <<< 2))
  | _ => none

/-- The address in the field of a jump. -/
def jumpAddress (target : BitVec 26) : Word :=
  target.setWidth 32 <<< 2

def jumpTarget? : MachineInstr → Option Word
  | jump _ target => some (jumpAddress target)
  | _ => none

/-- An immediate as it is shown: additions in decimal, bit patterns in hexadecimal. -/
def immediateText (op : ImmOp) (value : BitVec 16) : String :=
  match op with
  | .addi => Word.signedText (value.signExtend 32)
  | .andi | .ori => Word.hexText (value.setWidth 32)

def operandTexts : MachineInstr → List String
  | reg _ rd rs rt => [rd.text, rs.text, rt.text]
  | shift _ rd rt amount => [rd.text, rt.text, Numeral.decimal amount.toNat]
  | jr rs => [rs.text]
  | syscall => []
  | imm op rt rs value => [rt.text, rs.text, immediateText op value]
  | lui rt value => [rt.text, Word.hexText (value.setWidth 32)]
  | mem _ rt base offset =>
    [rt.text, Word.signedText (offset.signExtend 32) ++ "(" ++ base.text ++ ")"]
  | branch _ rs rt offset => [rs.text, rt.text, Word.signedText (offset.signExtend 32)]
  | jump _ target => [Word.addressText (jumpAddress target)]

/-- A mnemonic before its operands, with commas between them. -/
def lineText (name : String) (operands : List String) : String :=
  match operands with
  | [] => name
  | operands => name ++ " " ++ String.intercalate ", " operands

def text (i : MachineInstr) : String :=
  lineText i.mnemonic.name i.operandTexts

end MachineInstr

end Mips
