import Mips.Machine.Run

/-!
# Sessions

A session is a program that is executed one instruction at a time. Each step is reported with all
that there is to see of it. A session is completed when its program has ended or run into a fault.
-/
namespace Mips

structure Session where
  machine : Machine
  completed : Bool

structure StepReport where
  registers : RegisterFile
  memory : Memory
  pc : Word
  /-- The address of the instruction that was executed. -/
  pcBefore : Word
  /-- What this step printed. -/
  output : String
  /-- How the instruction is shown. -/
  text : String
  signals : Signals
  words : List MachineInstr
  changes : Changes
  fault : Option Fault

/-- What comes of asking a session to go on. -/
inductive Advance where
  /-- There is nothing left to execute. -/
  | completed
  | step (report : StepReport)

namespace Session

def start (program : Program) (settings : Settings) : Session :=
  ⟨(Machine.new settings).load program, false⟩

def isCompleted (s : Session) : Bool :=
  s.completed || s.machine.isDone

/-- The report of a step from the machine `before` to the machine `after`. -/
def report (slot : Slot) (before after : Machine) (fault : Option Fault) : StepReport where
  registers := after.registers
  memory := after.memory
  pc := after.pc
  pcBefore := before.pc
  output := Text.dropBytes after.output before.output.utf8ByteSize
  text := (before.program.slotText? slot).getD slot.instr.text
  signals := slot.instr.mnemonic.signals
  words := slot.words
  changes := after.changes
  fault := fault

def advance (s : Session) : Advance × Session :=
  if s.isCompleted then (.completed, { s with completed := true })
  else
    match s.machine.program.slotAt? s.machine.pc with
    | none => (.completed, { s with completed := true })
    | some slot =>
      let (after, fault) := s.machine.stepIn
      (.step (report slot s.machine after fault), ⟨after, fault.isSome⟩)

end Session

end Mips
