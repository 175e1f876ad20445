import Mips.Diagnostic
import Mips.MachineInstr

/-!
# Instructions as written

The instructions of a program before assembly: labels are names, immediates are whole words, and
there are operations that no machine word holds (`li`, `la`, `move`).
-/
namespace Mips

/-- A label and where it stands in the source. -/
structure Label where
  name : String
  start : Nat
  deriving DecidableEq

def Label.span (l : Label) : Span :=
  ⟨l.start, l.start + l.name.utf8ByteSize⟩

/-- What a memory access names. -/
inductive Address where
  | offset (offset : Word) (base : Register)
  | label (label : Label)
  deriving DecidableEq

def Address.text : Address → String
  | offset n base => Word.signedText n ++ "(" ++ base.text ++ ")"
  | label l => l.name

/-- An instruction, its operands in source order. -/
inductive Instr where
  | reg (op : RegOp) (rd rs rt : Register)
  | shift (op : ShiftOp) (rd rt : Register) (amount : BitVec 5)
  | jr (rs : Register)
  | imm (op : ImmOp) (rt rs : Register) (value : Word)
  | lui (rt : Register) (value : Word)
  | li (rd : Register) (value : Word)
  | la (rd : Register) (label : Label)
  | mem (op : MemOp) (rt : Register) (address : Address)
  | branch (op : BranchOp) (rs rt : Register) (label : Label)
  | jump (op : JumpOp) (label : Label)
  | move (rd rs : Register)
  | syscall
  deriving DecidableEq

namespace Instr

def mnemonic : Instr → Mnemonic
  | reg op .. => .reg op
  | shift op .. => .shift op
  | jr _ => .jr
  | imm op .. => .imm op
  | lui .. => .lui
  | li .. => .li
  | la .. => .la
  | mem op .. => .mem op
  | branch op .. => .branch op
  | jump op _ => .jump op
  | move .. => .move
  | syscall => .syscall

def operandTexts : Instr → List String
  | reg _ rd rs rt => [rd.text, rs.text, rt.text]
  | shift _ rd rt amount => [rd.text, rt.text, Numeral.decimal amount.toNat]
  | jr rs => [rs.text]
  | imm _ rt rs value => [rt.text, rs.text, Word.signedText value]
  | lui rt value => [rt.text, Word.signedText value]
  | li rd value => [rd.text, Word.signedText value]
  | la rd label => [rd.text, label.name]
  | mem _ rt address => [rt.text, address.text]
  | branch _ rs rt label => [rs.text, rt.text, label.name]
  | jump _ label => [label.name]
  | move rd rs => [rd.text, rs.text]
  | syscall => []

def text (i : Instr) : String :=
  MachineInstr.lineText i.mnemonic.name i.operandTexts

end Instr

end Mips
