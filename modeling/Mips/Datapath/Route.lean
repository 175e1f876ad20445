import Mips.Instr

/-!
# Routing of operands

Where the operands of an instruction enter the datapath. Operands that an instruction does not
have are the zero register and zero.
-/
namespace Mips

/-- The second operand of the arithmetic unit. -/
inductive Route.Operand where
  | register (r : Register)
  | immediate (value : Word)
  /-- The address of a label. -/
  | label (label : Label)
  deriving DecidableEq

structure Route where
  /-- The register that is written, or whose value is stored. -/
  dest : Register := .zero
  /-- The register that is the first operand. -/
  source : Register := .zero
  operand : Route.Operand := .immediate 0
  /-- Where a branch or jump leads. -/
  target : Option Label := none
  deriving DecidableEq

def Route.of : Instr → Route
  | .reg _ rd rs rt => { dest := rd, source := rs, operand := .register rt }
  | .shift _ rd rt amount =>
    { dest := rd, source := rt, operand := .immediate (amount.setWidth 32) }
  | .jr rs => { source := rs }
  | .imm _ rt rs value => { dest := rt, source := rs, operand := .immediate value }
  | .lui rt value => { dest := rt, operand := .immediate value }
  | .li rd value => { dest := rd, operand := .immediate value }
  | .la rd label => { dest := rd, operand := .label label }
  | .mem _ rt (.offset offset base) =>
    { dest := rt, source := base, operand := .immediate offset }
  | .mem _ rt (.label label) => { dest := rt, operand := .label label }
  | .branch _ rs rt label => { source := rs, operand := .register rt, target := some label }
  | .jump _ label => { target := some label }
  | .move rd rs => { dest := rd, source := rs, operand := .register .zero }
  | .syscall => {}

end Mips
