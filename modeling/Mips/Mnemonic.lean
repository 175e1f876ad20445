import Mips.Diagnostic

/-!
# Mnemonics

The closed set of operations, grouped by the shape of their operands. Operations of one group are
told apart by a small type of their own, so that whatever holds for a shape is said once.
-/
namespace Mips

inductive RegOp where
  | add | sub | and | or | slt | mul | xor | nor
  deriving DecidableEq

inductive ShiftOp where
  | sll | srl
  deriving DecidableEq

inductive ImmOp where
  | addi | andi | ori
  deriving DecidableEq

inductive MemOp where
  | lw | sw
  deriving DecidableEq

inductive BranchOp where
  | beq | bne
  deriving DecidableEq

inductive JumpOp where
  | j | jal
  deriving DecidableEq

inductive Mnemonic where
  | reg (op : RegOp)
  | shift (op : ShiftOp)
  | jr
  | imm (op : ImmOp)
  | lui
  | li
  | la
  | mem (op : MemOp)
  | branch (op : BranchOp)
  | jump (op : JumpOp)
  | move
  | syscall
  deriving DecidableEq

/-- A name that is no mnemonic. -/
structure UnsupportedOperation where
  name : String
  deriving DecidableEq

namespace Mnemonic

def name : Mnemonic → String
  | reg .add => "add"
  | reg .sub => "sub"
  | reg .and => "and"
  | reg .or => "or"
  | reg .slt => "slt"
  | reg .mul => "mul"
  | reg .xor => "xor"
  | reg .nor => "nor"
  | shift .sll => "sll"
  | shift .srl => "srl"
  | jr => "jr"
  | imm .addi => "addi"
  | imm .andi => "andi"
  | imm .ori => "ori"
  | lui => "lui"
  | li => "li"
  | la => "la"
  | mem .lw => "lw"
  | mem .sw => "sw"
  | branch .beq => "beq"
  | branch .bne => "bne"
  | jump .j => "j"
  | jump .jal => "jal"
  | move => "move"
  | syscall => "syscall"

/-- Every mnemonic, in the order in which they are listed to the user. -/
def all : List Mnemonic :=
  [reg .add, reg .sub, reg .and, reg .or, reg .slt, reg .mul, reg .xor, reg .nor,
   shift .sll, shift .srl, jr, imm .addi, imm .andi, imm .ori, lui, li, la,
   mem .lw, mem .sw, branch .beq, branch .bne, jump .j, jump .jal, move, syscall]

theorem mem_all (m : Mnemonic) : m ∈ all := by
  cases m with
  | reg op | shift op | imm op | mem op | branch op | jump op => cases op <;> decide
  | _ => decide

/-- The operation with the given name, in either case of letters. -/
def ofName (name : String) : Except UnsupportedOperation Mnemonic :=
  match all.find? fun m => m.name == name.toLower with
  | some m => .ok m
  | none => .error ⟨name⟩

/-- The number of operands that an operation takes. -/
def arity : Mnemonic → Nat
  | reg _ | shift _ | imm _ | branch _ => 3
  | lui | li | la | mem _ | move => 2
  | jr | jump _ => 1
  | syscall => 0

end Mnemonic

namespace UnsupportedOperation

def message (e : UnsupportedOperation) : String :=
  "unsupported operation: " ++ e.name

def help : String :=
  "supported operations are: " ++ String.intercalate ", " (Mnemonic.all.map Mnemonic.name)

instance : Diagnostic UnsupportedOperation where
  message := message
  category _ := .unsupportedOperation
  help _ := some help

end UnsupportedOperation

end Mips
