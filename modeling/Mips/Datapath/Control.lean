import Mips.Datapath.Alu
import Mips.Mnemonic

/-!
# The control unit

Every operation belongs to one class, and a class has one fixed set of control signals. The
signals, not the operation, decide what a step does; `jal` alone adds to the signals of its class.
-/
namespace Mips

inductive InstrClass where
  | regAlu
  | immAlu
  | load
  | store
  | branch
  | jump
  | regJump
  | syscall
  | move
  | loadAddress
  deriving DecidableEq

/-- What the control unit asks of the arithmetic unit. -/
inductive AluControl where
  /-- To add, for an address or an immediate. -/
  | mem
  | branch
  /-- What the function field says. -/
  | funct
  deriving DecidableEq

def AluControl.bits : AluControl → BitVec 2
  | mem => 0b00
  | branch => 0b01
  | funct => 0b10

structure Signals where
  kind : InstrClass
  /-- The destination register is written. -/
  regWrite : Bool := false
  /-- The destination is the third register field and not the second. -/
  regDst : Bool := false
  /-- The second operand of the arithmetic unit is the immediate. -/
  aluSrc : Bool := false
  branch : Bool := false
  memRead : Bool := false
  memWrite : Bool := false
  /-- The value for the register comes from memory. -/
  memToReg : Bool := false
  alu : AluControl := .mem
  /-- The program counter is replaced in any case. -/
  jump : Bool := false
  /-- The target of the jump comes from a register. -/
  jumpReg : Bool := false
  /-- The return address is kept. -/
  link : Bool := false
  /-- The destination receives the address of a label. -/
  loadAddress : Bool := false
  syscall : Bool := false
  /-- The source register is copied to the destination. -/
  regMove : Bool := false
  deriving DecidableEq

def InstrClass.signals : InstrClass → Signals
  | regAlu => { kind := regAlu, regDst := true, regWrite := true, alu := .funct }
  | immAlu => { kind := immAlu, aluSrc := true, regWrite := true }
  | load => { kind := load, aluSrc := true, memToReg := true, regWrite := true, memRead := true }
  | store => { kind := store, aluSrc := true, memWrite := true }
  | branch => { kind := branch, branch := true, alu := .branch }
  | jump => { kind := jump, jump := true }
  | regJump => { kind := regJump, jump := true, jumpReg := true }
  | syscall => { kind := syscall, syscall := true }
  | move => { kind := move, regWrite := true, regMove := true }
  | loadAddress => { kind := loadAddress, regWrite := true, loadAddress := true }

namespace Mnemonic

def kind : Mnemonic → InstrClass
  | reg _ | shift _ => .regAlu
  | imm _ | lui | li => .immAlu
  | mem .lw => .load
  | mem .sw => .store
  | branch _ => .branch
  | jump _ => .jump
  | jr => .regJump
  | syscall => .syscall
  | move => .move
  | la => .loadAddress

def signals : Mnemonic → Signals
  | jump .jal => { InstrClass.jump.signals with regWrite := true, link := true }
  | m => m.kind.signals

/-- What the arithmetic unit does in an operation that uses it. -/
def alu? : Mnemonic → Option Alu
  | reg .add | imm .addi | li | mem _ => some .add
  | reg .sub => some .sub
  | reg .and | imm .andi => some .and
  | reg .or | imm .ori => some .or
  | reg .slt => some .slt
  | reg .mul => some .mul
  | reg .xor => some .xor
  | reg .nor => some .nor
  | shift .sll => some .sll
  | shift .srl => some .srl
  | lui => some .lui
  | branch .beq => some .eq
  | branch .bne => some .ne
  | jump _ | jr | syscall | move | la => none

end Mnemonic

end Mips
