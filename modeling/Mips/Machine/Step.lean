import Mips.Datapath.Control
import Mips.Datapath.Route
import Mips.Machine

/-!
# Steps

A step executes the instruction at the program counter. The control signals of its mnemonic decide
what happens to the operands that its route brings. A label that cannot be resolved is a fault, and
the machine stays as it stands then; the exit of the program leaves the program counter where it is.
-/
namespace Mips

namespace Machine

inductive Service where
  | printInteger
  | printText
  | exit
  | unknown
  deriving DecidableEq

def Service.ofCode (code : Word) : Service :=
  if code = 1 then printInteger
  else if code = 4 then printText
  else if code = 10 then exit
  else unknown

def count (m : Machine) : Machine :=
  { m with executed := m.executed + 1 }

/-- Ends an instruction by going to `target`, and notes whether that leaves the straight line. -/
def goTo (m : Machine) (target : Word) : Machine :=
  let changes := if target = m.pc + 4 then m.changes else m.changes.markPc
  { m with pc := target, changes := changes }.count

def goOn (m : Machine) : Machine :=
  m.goTo (m.pc + 4)

/-- Ends the program at the instruction that exits. -/
def exit (m : Machine) : Machine :=
  { m with halted := true }.count

/-- Performs the service that register `v0` asks for. -/
def systemCall (m : Machine) : Machine :=
  let code := m.registers.get .v0
  let argument := m.registers.get .a0
  match Service.ofCode code with
  | .printInteger => (m.print argument.signedText).goOn
  | .printText => (m.print (m.memory.readText argument)).goOn
  | .exit => (if m.settings.announceExit then m.print "Program exit\n" else m).exit
  | .unknown => (m.print ("Unknown syscall: " ++ code.signedText ++ "\n")).goOn

def operand (m : Machine) : Route.Operand → Except Fault Word
  | .register r => .ok (m.registers.get r)
  | .immediate value => .ok value
  | .label label => m.resolve label

def writeBack (m : Machine) (signals : Signals) (dest : Register) (value : Word) : Machine :=
  if signals.regWrite then m.writeRegister dest value else m

/-- Executes an instruction. A fault leaves the machine as it is at that point. -/
def execute (i : Instr) : EStateM Fault Machine Unit := do
  let m ← get
  let signals := i.mnemonic.signals
  let route := Route.of i
  let a := m.registers.get route.source
  let b ← liftExcept (m.operand route.operand)
  if signals.syscall then
    modify systemCall
  else if signals.jump then
    let target ← match signals.jumpReg, route.target with
      | false, some label => liftExcept (m.resolve label)
      | _, _ => pure a
    modify fun m => if signals.link then m.writeRegister .ra (m.pc + 4) else m
    modify (·.goTo target)
  else if signals.regMove then
    modify fun m => (m.writeBack signals route.dest a).goOn
  else if signals.loadAddress then
    modify fun m => (m.writeBack signals route.dest b).goOn
  else
    match i.mnemonic.alu? with
    | none => modify goOn
    | some alu =>
      let result := alu.apply a b
      if signals.branch then
        let target ← match route.target with
          | some label => if result ≠ 0 then liftExcept (m.resolve label) else pure (m.pc + 4)
          | none => pure (m.pc + 4)
        modify (·.goTo target)
      else if signals.memWrite then
        modify fun m => (m.writeMemory result (m.registers.get route.dest)).goOn
      else if signals.memRead then
        modify fun m => (m.writeBack signals route.dest (m.memory.get result)).goOn
      else
        modify fun m => (m.writeBack signals route.dest result).goOn

inductive Step where
  | ran (m : Machine)
  | done
  | fault (f : Fault) (m : Machine)

def step (m : Machine) : Step :=
  if m.halted then .done
  else
    match m.program.slotAt? m.pc with
    | none => .done
    | some slot =>
      match execute slot.instr m with
      | .ok _ m => .ran m
      | .error f m => .fault f m

/-- The machine with nothing noted as changed. -/
def clearChanges (m : Machine) : Machine :=
  { m with changes := .none }

/-- Executes one instruction, if the program has not ended, and gives what the step changed and
the fault that it ran into. -/
def stepIn (m : Machine) : Machine × Option Fault :=
  let m := m.clearChanges
  match m.step with
  | .ran m => (m, none)
  | .done => (m, none)
  | .fault f m => (m, some f)

end Machine

end Mips
