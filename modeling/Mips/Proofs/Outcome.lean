import Mips.Proofs.Execute

/-!
# Outcomes

An instruction does at most one thing, and then it moves the program counter or exits. What it
does is worked out from the registers, the memory and the program before anything is written, so
that an instruction which fails has done nothing. The frame rules of a step are those of finishing
an outcome, and need no cases on instructions.
-/
namespace Mips

/-- The one thing that an instruction does besides moving the program counter. -/
inductive Effect where
  | nothing
  | register (r : Register) (value : Word)
  | cell (address value : Word)
  | text (text : String)

def Effect.printed : Effect → String
  | text t => t
  | nothing | register .. | cell .. => ""

structure Outcome where
  effect : Effect
  /-- The address of the next instruction, unless the program exits. -/
  next : Option Word

namespace Machine

variable (m : Machine)

/-- An effect after which the next instruction follows. -/
def onward (effect : Effect) : Outcome :=
  ⟨effect, some (m.pc + 4)⟩

def service : Outcome :=
  let code := m.registers.get .v0
  let argument := m.registers.get .a0
  match Service.ofCode code with
  | .printInteger => m.onward (.text argument.signedText)
  | .printText => m.onward (.text (m.memory.readText argument))
  | .exit => ⟨if m.settings.announceExit then .text "Program exit\n" else .nothing, none⟩
  | .unknown => m.onward (.text ("Unknown syscall: " ++ code.signedText ++ "\n"))

/-- The outcome of an instruction, which may need a label. -/
def outcome : Instr → Except Fault Outcome
  | .reg op rd rs rt =>
    .ok (m.onward (.register rd (op.result (m.registers.get rs) (m.registers.get rt))))
  | .shift op rd rt amount =>
    .ok (m.onward (.register rd (op.result (m.registers.get rt) amount)))
  | .imm op rt rs value => .ok (m.onward (.register rt (op.result (m.registers.get rs) value)))
  | .lui rt value => .ok (m.onward (.register rt (value <<< 16)))
  | .li rd value => .ok (m.onward (.register rd value))
  | .la rd label => (m.resolve label).map fun address => m.onward (.register rd address)
  | .move rd rs => .ok (m.onward (.register rd (m.registers.get rs)))
  | .mem .lw rt address =>
    (m.locate address).map fun address => m.onward (.register rt (m.memory.get address))
  | .mem .sw rt address =>
    (m.locate address).map fun address => m.onward (.cell address (m.registers.get rt))
  | .branch op rs rt label =>
    if op.holds (m.registers.get rs) (m.registers.get rt) then
      (m.resolve label).map fun target => ⟨.nothing, some target⟩
    else .ok (m.onward .nothing)
  | .jump .j label => (m.resolve label).map fun target => ⟨.nothing, some target⟩
  | .jump .jal label =>
    (m.resolve label).map fun target => ⟨.register .ra (m.pc + 4), some target⟩
  | .jr rs => .ok ⟨.nothing, some (m.registers.get rs)⟩
  | .syscall => .ok m.service

def affected : Effect → Machine
  | .nothing => m
  | .register r value => m.writeRegister r value
  | .cell address value => m.writeMemory address value
  | .text text => m.print text

def finish (o : Outcome) : Machine :=
  match o.next with
  | some target => (m.affected o.effect).goTo target
  | none => (m.affected o.effect).exit

theorem systemCall_eq_finish : m.systemCall = m.finish m.service := by
  simp only [systemCall, service]
  cases Service.ofCode (m.registers.get .v0) with
  | exit =>
    dsimp only
    split <;> rfl
  | _ => rfl

/-- Executing an instruction is finishing its outcome. Without one nothing is done. -/
theorem execute_eq_finish (i : Instr) :
    execute i m = m.atomic ((m.outcome i).map m.finish) := by
  have finished {α : Type} (x : Except Fault α) (f : α → Outcome) :
      (x.map f).map m.finish = x.map fun a => m.finish (f a) := by
    cases x <;> rfl
  cases i with
  | reg op rd rs rt => exact m.execute_reg op rd rs rt
  | shift op rd rt amount => exact m.execute_shift op rd rt amount
  | imm op rt rs value => exact m.execute_imm op rt rs value
  | lui rt value => exact m.execute_lui rt value
  | li rd value => exact m.execute_li rd value
  | la rd label => rw [execute_la, outcome, finished]; rfl
  | move rd rs => exact m.execute_move rd rs
  | mem op rt address =>
    cases op with
    | lw => rw [execute_lw, outcome, finished]; rfl
    | sw => rw [execute_sw, outcome, finished]; rfl
  | branch op rs rt label =>
    rw [execute_branch, outcome]
    split
    · rw [finished]; rfl
    · rfl
  | jump op label =>
    cases op with
    | j => rw [execute_j, outcome, finished]; rfl
    | jal => rw [execute_jal, outcome, finished]; rfl
  | jr rs => exact m.execute_jr rs
  | syscall => rw [execute_syscall, systemCall_eq_finish]; rfl

@[simp] theorem program_affected (e : Effect) : (m.affected e).program = m.program := by
  cases e <;> rfl

@[simp] theorem program_finish (o : Outcome) : (m.finish o).program = m.program := by
  unfold finish
  split <;> exact m.program_affected o.effect

@[simp] theorem executed_affected (e : Effect) : (m.affected e).executed = m.executed := by
  cases e <;> rfl

@[simp] theorem executed_finish (o : Outcome) : (m.finish o).executed = m.executed + 1 := by
  unfold finish
  split <;> exact congrArg (· + 1) (m.executed_affected o.effect)

@[simp] theorem output_affected (e : Effect) :
    (m.affected e).output = m.output ++ e.printed := by
  cases e with
  | text t => rfl
  | _ => exact String.append_empty.symm

@[simp] theorem output_finish (o : Outcome) :
    (m.finish o).output = m.output ++ o.effect.printed := by
  unfold finish
  split <;> exact m.output_affected o.effect

@[simp] theorem halted_affected (e : Effect) : (m.affected e).halted = m.halted := by
  cases e <;> rfl

@[simp] theorem pc_affected (e : Effect) : (m.affected e).pc = m.pc := by
  cases e <;> rfl

theorem pc_finish (o : Outcome) : (m.finish o).pc = o.next.getD m.pc := by
  unfold finish
  cases o.next with
  | some target => rfl
  | none => exact m.pc_affected o.effect

theorem registers_finish (o : Outcome) :
    (m.finish o).registers = (m.affected o.effect).registers := by
  unfold finish
  split <;> rfl

theorem memory_finish (o : Outcome) : (m.finish o).memory = (m.affected o.effect).memory := by
  unfold finish
  split <;> rfl

theorem halted_finish (running : m.halted = false) (o : Outcome) :
    (m.finish o).halted = o.next.isNone := by
  unfold finish
  split
  next target next => rw [next]; exact (m.halted_affected o.effect).trans running
  next next => rw [next]; rfl

/-- What was noted as changed has no influence on what an outcome makes of a machine. -/
theorem finish_clearChanges (o : Outcome) :
    (m.clearChanges.finish o).clearChanges = (m.finish o).clearChanges := by
  obtain ⟨effect, next⟩ := o
  cases next <;> cases effect <;> rfl

theorem outcome_clearChanges (i : Instr) : m.clearChanges.outcome i = m.outcome i := rfl

end Machine

end Mips
