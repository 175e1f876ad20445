import Mips.Proofs.MemoryText
import Mips.Proofs.Runs
import Mips.Proofs.Sinks
import Mips.Proofs.Stores

/-!
# The instruction set

What each instruction does, said of the instruction itself: no control signals, no route and no
arithmetic unit. The main result is that a step does just this, whatever the registers, the memory
and the program are, as long as the label that the instruction needs exists and a text that it
prints ends. What a step notes as changed is left out of the comparison.
-/
namespace Mips

namespace Machine

/-- All that an instruction can change, apart from what is noted. -/
structure State extends Store where
  pc : Word
  output : String
  sink? : Nat → Option Sink
  halted : Bool
  executed : BitVec 64

def state (m : Machine) : State where
  toStore := m.store
  pc := m.pc
  output := m.output
  sink? i := m.sinks[i]?
  halted := m.halted
  executed := m.executed

/-- One more instruction was executed, and the next one is at `target`. -/
def wentTo (m : Machine) (store : Store) (target : Word) : State :=
  { m.state with toStore := store, pc := target, executed := m.executed + 1 }

def assigned (m : Machine) (r : Register) (value : Word) : State :=
  m.wentTo (m.store.assign r value) (m.pc + 4)

def stored (m : Machine) (address value : Word) : State :=
  m.wentTo (m.store.put address value) (m.pc + 4)

/-- An instruction that prints. A sink takes the text once for each console that refers to it. -/
def printed (m : Machine) (text : String) : State :=
  { m.wentTo m.store (m.pc + 4) with
    output := m.output ++ text
    sink? := fun i => m.sinks[i]?.map (.took (.replicate (m.consoles.count ⟨i⟩) text)) }

/-- The exit of the program. The program counter stays on it. -/
def exited (m : Machine) : State :=
  let last := if m.settings.announceExit then m.printed "Program exit\n" else m.wentTo m.store m.pc
  { last with pc := m.pc, halted := true }

def served (m : Machine) (code argument : Word) : State :=
  if code = 1 then m.printed (toString argument.toInt)
  else if code = 4 then m.printed (m.memory.textAt argument)
  else if code = 10 then m.exited
  else m.printed ("Unknown syscall: " ++ toString code.toInt ++ "\n")

def address? (m : Machine) (label : Label) : Option Word :=
  m.program.symbols.address? label.name

variable (m : Machine)

end Machine

end Mips
