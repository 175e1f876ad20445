import Mips.Diagnostic
import Mips.MachineInstr

/-!
# Words and machine instructions

A word is the concatenation of its fields. Its first six bits are the operation code; under two of
these codes the last six bits select a function. `encode` puts the fields of an instruction in
their places and zero in those that it does not use; `decode` takes a word apart and refuses one
whose unused fields are not zero.
-/
namespace Mips

/-- What the operation code of a word announces. -/
inductive Opcode where
  | special
  | special2
  | imm (op : ImmOp)
  | lui
  | mem (op : MemOp)
  | branch (op : BranchOp)
  | jump (op : JumpOp)
  deriving DecidableEq

namespace Opcode

def code : Opcode → BitVec 6
  | special => 0b000000
  | special2 => 0b011100
  | jump .j => 0b000010
  | jump .jal => 0b000011
  | branch .beq => 0b000100
  | branch .bne => 0b000101
  | imm .addi => 0b001000
  | imm .andi => 0b001100
  | imm .ori => 0b001101
  | lui => 0b001111
  | mem .lw => 0b100011
  | mem .sw => 0b101011

def all : List Opcode :=
  [special, special2, jump .j, jump .jal, branch .beq, branch .bne,
   imm .addi, imm .andi, imm .ori, lui, mem .lw, mem .sw]

def ofCode? (code : BitVec 6) : Option Opcode :=
  all.find? fun o => o.code == code

end Opcode

/-- What the function code of a word announces under one of the two tables. -/
inductive FunctionCode where
  | reg (op : RegOp)
  | shift (op : ShiftOp)
  | jr
  | syscall
  deriving DecidableEq

namespace FunctionCode

def code : FunctionCode → BitVec 6
  | shift .sll => 0b000000
  | shift .srl => 0b000010
  | jr => 0b001000
  | syscall => 0b001100
  | reg .add => 0b100000
  | reg .sub => 0b100010
  | reg .and => 0b100100
  | reg .or => 0b100101
  | reg .xor => 0b100110
  | reg .nor => 0b100111
  | reg .slt => 0b101010
  | reg .mul => 0b000010

def mainTable : List FunctionCode :=
  [reg .add, reg .sub, reg .and, reg .or, reg .slt, reg .xor, reg .nor,
   shift .sll, shift .srl, jr, syscall]

def secondTable : List FunctionCode :=
  [reg .mul]

def ofCode? (table : List FunctionCode) (code : BitVec 6) : Option FunctionCode :=
  table.find? fun f => f.code == code

end FunctionCode

inductive DecodeError where
  | illegalOpcode (code : BitVec 6)
  | illegalFunction (code : BitVec 6)
  /-- A field that the instruction does not use is not zero. -/
  | unusedField
  deriving DecidableEq

namespace DecodeError

def message : DecodeError → String
  | illegalOpcode code => "illegal opcode " ++ Numeral.fixed 2 6 code.toNat
  | illegalFunction code => "illegal function code " ++ Numeral.fixed 2 6 code.toNat
  | unusedField => "invalid instruction format"

instance : Diagnostic DecodeError where
  message := message
  category _ := .encoding
  help _ := none

end DecodeError

namespace MachineInstr

/-- A word with the operation code, three registers, a shift amount and a function. -/
def registerWord (opcode : Opcode) (rs rt rd : Register) (amount : BitVec 5)
    (function : FunctionCode) : Word :=
  opcode.code ++ rs.number ++ rt.number ++ rd.number ++ amount ++ function.code

/-- A word with the operation code, two registers and an immediate. -/
def immediateWord (opcode : Opcode) (rs rt : Register) (value : BitVec 16) : Word :=
  opcode.code ++ rs.number ++ rt.number ++ value

def jumpWord (opcode : Opcode) (target : BitVec 26) : Word :=
  opcode.code ++ target

def tableOf : RegOp → Opcode
  | .mul => .special2
  | _ => .special

def encode : MachineInstr → Word
  | reg op rd rs rt => registerWord (tableOf op) rs rt rd 0 (.reg op)
  | shift op rd rt amount => registerWord .special .zero rt rd amount (.shift op)
  | jr rs => registerWord .special rs .zero .zero 0 .jr
  | syscall => registerWord .special .zero .zero .zero 0 .syscall
  | imm op rt rs value => immediateWord (.imm op) rs rt value
  | lui rt value => immediateWord .lui .zero rt value
  | mem op rt base offset => immediateWord (.mem op) base rt offset
  | branch op rs rt offset => immediateWord (.branch op) rs rt offset
  | jump op target => jumpWord (.jump op) target

def opcodeField (w : Word) : BitVec 6 := w.extractLsb' 26 6

def rsField (w : Word) : Register := ⟨w.extractLsb' 21 5⟩

def rtField (w : Word) : Register := ⟨w.extractLsb' 16 5⟩

def rdField (w : Word) : Register := ⟨w.extractLsb' 11 5⟩

def amountField (w : Word) : BitVec 5 := w.extractLsb' 6 5

def functionField (w : Word) : BitVec 6 := w.extractLsb' 0 6

def immediateField (w : Word) : BitVec 16 := w.extractLsb' 0 16

def targetField (w : Word) : BitVec 26 := w.extractLsb' 0 26

/-- The instruction, if the fields that it does not use are zero. -/
def ifUnused (zero : Bool) (i : MachineInstr) : Except DecodeError MachineInstr :=
  if zero then .ok i else .error .unusedField

/-- The instruction of a word whose function comes from the given table. -/
def decodeFunction (table : List FunctionCode) (w : Word) : Except DecodeError MachineInstr :=
  let rs := rsField w
  let rt := rtField w
  let rd := rdField w
  let amount := amountField w
  match FunctionCode.ofCode? table (functionField w) with
  | some (.reg op) => ifUnused (amount == 0) (.reg op rd rs rt)
  | some (.shift op) => ifUnused (rs == .zero) (.shift op rd rt amount)
  | some .jr => ifUnused (rt == .zero && rd == .zero && amount == 0) (.jr rs)
  | some .syscall =>
    ifUnused (rs == .zero && rt == .zero && rd == .zero && amount == 0) .syscall
  | none => .error (.illegalFunction (functionField w))

def decode (w : Word) : Except DecodeError MachineInstr :=
  match Opcode.ofCode? (opcodeField w) with
  | some .special => decodeFunction FunctionCode.mainTable w
  | some .special2 => decodeFunction FunctionCode.secondTable w
  | some (.imm op) => .ok (.imm op (rtField w) (rsField w) (immediateField w))
  | some .lui => ifUnused (rsField w == .zero) (.lui (rtField w) (immediateField w))
  | some (.mem op) => .ok (.mem op (rtField w) (rsField w) (immediateField w))
  | some (.branch op) => .ok (.branch op (rsField w) (rtField w) (immediateField w))
  | some (.jump op) => .ok (.jump op (targetField w))
  | none => .error (.illegalOpcode (opcodeField w))

def opcode (i : MachineInstr) : BitVec 6 :=
  opcodeField i.encode

end MachineInstr

end Mips
