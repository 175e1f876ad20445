import Mips.SymbolTable

/-!
# Machine code of an instruction

Labels are replaced by their addresses and pseudo-instructions by machine instructions. All
instructions become one word, except that a constant of more than sixteen bits is loaded in two
halves. An immediate keeps its low bits. A branch or jump to a label that does not exist has zero
in its field, as it is only known when it runs whether the label is needed.
-/
namespace Mips

namespace Instr

/-- The distance in words from the instruction after `pc` to a label. -/
def branchOffset (label : Label) (pc : Word) (symbols : SymbolTable) :
    Except AssemblyError (BitVec 16) :=
  match symbols.address? label.name with
  | none => .ok 0
  | some address =>
    let words := ((address.toNat : Int) - (pc.toNat + 4)).fdiv 4
    if Extension.signed.least 16 ≤ words ∧ words ≤ Extension.signed.greatest 16 then
      .ok (BitVec.ofInt 16 words)
    else .error (.atSpan label.span (.tooFar ⟨.signed, 16⟩))

/-- The word of memory that a label names. -/
def jumpField (label : Label) (symbols : SymbolTable) : BitVec 26 :=
  (((symbols.address? label.name).getD 0) >>> 2).setWidth 26

def resolve (label : Label) (symbols : SymbolTable) : Except AssemblyError Word :=
  match symbols.address? label.name with
  | some address => .ok address
  | none => .error (.atSpan label.span .noSuchLabel)

/-- Loads a whole word in two halves. -/
def loadHalves (rd : Register) (value : Word) : List MachineInstr :=
  [.lui rd (value.extractLsb' 16 16), .imm .ori rd rd (value.setWidth 16)]

/-- The constants that one instruction loads. -/
def isShort (value : Word) : Bool :=
  -32768 ≤ value.toInt && value.toInt ≤ 65535

def expand (i : Instr) (pc : Word) (symbols : SymbolTable) :
    Except AssemblyError (List MachineInstr) :=
  match i with
  | reg op rd rs rt => .ok [.reg op rd rs rt]
  | shift op rd rt amount => .ok [.shift op rd rt amount]
  | jr rs => .ok [.jr rs]
  | imm op rt rs value => .ok [.imm op rt rs (value.setWidth 16)]
  | lui rt value => .ok [.lui rt (value.setWidth 16)]
  | li rd value =>
    if isShort value then .ok [.imm .addi rd .zero (value.setWidth 16)]
    else .ok (loadHalves rd value)
  | la rd label => (resolve label symbols).map (loadHalves rd)
  | mem op rt (.offset offset base) => .ok [.mem op rt base (offset.setWidth 16)]
  | mem op rt (.label label) =>
    (resolve label symbols).map fun address => [.mem op rt .zero (address.setWidth 16)]
  | branch op rs rt label =>
    (branchOffset label pc symbols).map fun offset => [.branch op rs rt offset]
  | jump op label => .ok [.jump op (jumpField label symbols)]
  | move rd rs => .ok [.reg .add rd rs .zero]
  | syscall => .ok [.syscall]

end Instr

end Mips
