import Mips.Machine.Step

/-!
# Runs

A run executes instructions until the program ends, a fault occurs or a condition of the caller
fails, which is asked before every instruction. As a program need not end, a run has fuel: a run
that uses it up is unfinished and can be resumed. A run with a limit always has fuel enough.
-/
namespace Mips

inductive Run where
  /-- The run ended, with the fault that ended it if there was one. -/
  | ended (m : Machine) (fault : Option Fault)
  /-- The fuel was used up first. -/
  | unfinished (m : Machine)

namespace Machine

/-- Goes on with a run for at most `fuel` instructions. -/
def resumeWhile (go : Machine → Bool) (fuel : Nat) (m : Machine) : Run :=
  match fuel with
  | 0 => .unfinished m
  | fuel + 1 =>
    if go m then
      match m.step with
      | .ran m => if m.halted then .ended m none else m.resumeWhile go fuel
      | .done => .ended m none
      | .fault f m => .ended m (some f)
    else .ended { m with interrupted := true } none

def startRun (m : Machine) : Machine :=
  { m.clearChanges with interrupted := false }

def runWhile (go : Machine → Bool) (fuel : Nat) (m : Machine) : Run :=
  m.startRun.resumeWhile go fuel

def run (fuel : Nat) (m : Machine) : Run :=
  m.runWhile (fun _ => true) fuel

/-- The condition that fewer than `limit` instructions were executed since the count was `start`. -/
def withinLimit (start limit : BitVec 64) (m : Machine) : Bool :=
  (m.executed - start).ult limit

def runWithLimit (limit : BitVec 64) (m : Machine) : Machine × Option Fault :=
  match m.runWhile (withinLimit m.executed limit) (limit.toNat + 1) with
  | .ended m fault => (m, fault)
  | .unfinished m => (m, none)

end Machine

/-- A copy of what a program can see of the machine. -/
structure Snapshot where
  registers : RegisterFile
  memory : Memory
  pc : Word
  output : String

def Machine.snapshot (m : Machine) : Snapshot :=
  ⟨m.registers, m.memory, m.pc, m.output⟩

def Program.run (p : Program) (settings : Settings) (fuel : Nat) : Run :=
  ((Machine.new settings).load p).run fuel

end Mips
