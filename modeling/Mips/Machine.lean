import Mips.Changes
import Mips.Console
import Mips.Program
import Mips.RegisterFile

/-!
# The machine

The registers, the memory and the program counter, the program that they run, what was printed,
and what the last run changed and how it ended. Resetting clears all of it but the settings and
the consoles. The sinks are all that there are, whoever refers to them.
-/
namespace Mips

/-- The stack pointer of a machine with the usual settings. -/
def defaultStack : Word := 0x7FFFFFFC

structure Settings where
  /-- The stack pointer of a machine that was reset. -/
  initialStack : Word := defaultStack
  /-- Whether a program says so when it exits. -/
  announceExit : Bool := false
  deriving DecidableEq

/-- A label is needed that the program does not have. -/
structure Fault where
  label : String
  deriving DecidableEq

namespace Fault

def message (f : Fault) : String :=
  "label " ++ f.label ++ " could not be found"

def help (f : Fault) : String :=
  "try adding a label named " ++ f.label ++ " to the program"

instance : Diagnostic Fault where
  message := message
  category _ := .unresolvedLabel
  help f := some f.help

end Fault

structure Machine where
  memory : Memory
  registers : RegisterFile
  pc : Word
  program : Program
  /-- What was printed since the last reset and not taken away. -/
  output : String
  /-- Whether the program exited. -/
  halted : Bool
  executed : BitVec 64
  /-- Whether the last run was ended from outside and not by the program. -/
  interrupted : Bool
  /-- What the last step or run changed. -/
  changes : Changes
  settings : Settings
  consoles : Array Console
  sinks : Array Sink

namespace Machine

def new (settings : Settings) : Machine where
  memory := .empty
  registers := RegisterFile.zeroed.set .sp settings.initialStack
  pc := textBase
  program := .empty
  output := ""
  halted := false
  executed := 0
  interrupted := false
  changes := .none
  settings := settings
  consoles := #[]
  sinks := #[]

/-- The machine as new, with its settings and consoles. -/
def reset (m : Machine) : Machine :=
  { new m.settings with consoles := m.consoles, sinks := m.sinks }

/-- Resets the machine and puts a program and its data into it. -/
def load (m : Machine) (program : Program) : Machine :=
  let m := m.reset
  { m with memory := m.memory.copyBlock program.data, program := program }

/-- Sends what is printed from now on to one more console. -/
def attach (m : Machine) (console : Console) : Machine :=
  { m with consoles := m.consoles.push console }

/-- The output so far, which is taken away. -/
def takeOutput (m : Machine) : String × Machine :=
  (m.output, { m with output := "" })

def isDone (m : Machine) : Bool :=
  m.halted || (m.program.slotAt? m.pc).isNone

def print (m : Machine) (text : String) : Machine :=
  { m with output := m.output ++ text, sinks := Console.tell m.consoles m.sinks text }

/-- Writes a register and notes whether its value changed. -/
def writeRegister (m : Machine) (r : Register) (value : Word) : Machine :=
  let altered := m.registers.alters r value
  { m with
    registers := m.registers.set r value
    changes := if altered then m.changes.markRegister r else m.changes }

def writeMemory (m : Machine) (address value : Word) : Machine :=
  let altered := m.memory.alters address value
  { m with
    memory := m.memory.set address value
    changes := if altered then m.changes.markCell address else m.changes }

def resolve (m : Machine) (label : Label) : Except Fault Word :=
  match m.program.symbols.address? label.name with
  | some address => .ok address
  | none => .error ⟨label.name⟩

end Machine

end Mips
