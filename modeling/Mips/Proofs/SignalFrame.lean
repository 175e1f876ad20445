import Mips.Proofs.ControlFlow
import Mips.Proofs.SessionTrace

/-!
# What the signals allow

The control signals that a step is reported with come from the table of operations, while its
effects come from the engine. The signals bound the effects: a register changes only if a register
may be written, and then it is the destination, a memory cell is written only if the memory may be,
the straight line is left only by branches and jumps, and only a system call prints or ends the
program.
-/
namespace Mips

/-- The register that an instruction writes, which for a linking jump is not an operand. -/
def Instr.destination? : Instr → Option Register
  | .reg _ rd _ _ | .shift _ rd _ _ | .li rd _ | .la rd _ | .move rd _ => some rd
  | .imm _ rt _ _ | .lui rt _ | .mem .lw rt _ => some rt
  | .jump .jal _ => some .ra
  | .mem .sw .. | .branch .. | .jump .j _ | .jr _ | .syscall => none

/-- The signals allow the effect, which is on no other register than the destination. -/
def Effect.AllowedBy (signals : Signals) (dest? : Option Register) : Effect → Prop
  | nothing => True
  | register r _ => signals.regWrite = true ∧ dest? = some r
  | cell .. => signals.memWrite = true
  | text _ => signals.syscall = true

theorem Instr.destination?_of_link {i : Instr} (link : i.mnemonic.signals.link = true) :
    i.destination? = some .ra := by
  cases i with
  | jump op label =>
    cases op with
    | j => cases link
    | jal => rfl
  | reg op | shift op | imm op | mem op | branch op => cases op <;> cases link
  | _ => cases link

theorem Instr.transfers_of_target {i : Instr} {label : Label}
    (target : (Route.of i).target = some label) :
    i.mnemonic.signals.branch = true ∨ i.mnemonic.signals.jump = true := by
  cases i with
  | branch => exact .inl rfl
  | jump op => cases op <;> exact .inr rfl
  | mem op rt address => cases address <;> cases target
  | _ => cases target

namespace Machine

variable {m : Machine} {i : Instr} {o : Outcome} {e : Effect} {signals : Signals}
  {dest? : Option Register}

/-- What an instruction does is allowed by its signals. -/
theorem allowedBy_of_outcome (ho : m.outcome i = .ok o) :
    o.effect.AllowedBy i.mnemonic.signals i.destination? := by
  have within {α : Type} {x : Except Fault α} {f : α → Outcome} (h : x.map f = .ok o)
      (each : ∀ a, (f a).effect.AllowedBy i.mnemonic.signals i.destination?) :
      o.effect.AllowedBy i.mnemonic.signals i.destination? := by
    obtain ⟨a, -, rfl⟩ := map_eq_ok.1 h
    exact each a
  cases i with
  | la rd label => exact within ho fun _ => ⟨rfl, rfl⟩
  | mem op rt address =>
    cases op with
    | lw => exact within ho fun _ => ⟨rfl, rfl⟩
    | sw => exact within ho fun _ => rfl
  | branch op rs rt label =>
    rw [outcome] at ho
    split at ho
    next => exact within ho fun _ => trivial
    next =>
      cases ho
      trivial
  | jump op label =>
    cases op with
    | j => exact within ho fun _ => trivial
    | jal => exact within ho fun _ => ⟨rfl, rfl⟩
  | jr rs =>
    cases ho
    trivial
  | syscall =>
    cases ho
    unfold service
    dsimp only
    cases Service.ofCode (m.registers.get .v0) with
    | exit =>
      dsimp only
      split
      next => exact rfl
      next => trivial
    | printInteger | printText | unknown => exact rfl
  | reg | shift | imm | lui | li | move =>
    cases ho
    exact ⟨rfl, rfl⟩

theorem registers_of_allowed (allowed : e.AllowedBy signals dest?)
    (kept : signals.regWrite = false) : (m.affected e).registers = m.registers := by
  cases e with
  | register r value => exact absurd allowed.1 (by simp [kept])
  | nothing | cell | text => rfl

theorem destination_of_allowed (allowed : e.AllowedBy signals dest?) {r : Register}
    (differs : (m.affected e).registers.get r ≠ m.registers.get r) : dest? = some r := by
  cases e with
  | register s value =>
    have written : s = r := by
      by_contra other
      exact differs (m.registers.get_set_of_ne other value)
    exact written ▸ allowed.2
  | nothing | cell | text => exact absurd rfl differs

theorem memory_of_allowed (allowed : e.AllowedBy signals dest?)
    (kept : signals.memWrite = false) : (m.affected e).memory = m.memory := by
  cases e with
  | cell address value => exact absurd allowed (by simp [Effect.AllowedBy, kept])
  | nothing | register | text => rfl

theorem memory_affected (m : Machine) (e : Effect) : (m.affected e).memory = m.memory ∨
    ∃ address value, (m.affected e).memory = m.memory.set address value := by
  cases e with
  | cell address value => exact .inr ⟨address, value, rfl⟩
  | nothing | register | text => exact .inl rfl

theorem printed_of_allowed (allowed : e.AllowedBy signals dest?)
    (silent : signals.syscall = false) : e.printed = "" := by
  cases e with
  | text t => exact absurd allowed (by simp [Effect.AllowedBy, silent])
  | nothing | register | cell => rfl

theorem next_of_not_syscall (ho : m.outcome i = .ok o)
    (goes : i.mnemonic.signals.syscall = false) : ∃ target, o.next = some target := by
  rcases next_cases ho with next | ⟨rfl, -⟩ | ⟨-, address, -, -, next⟩ | ⟨rs, rfl⟩
  · exact ⟨_, next⟩
  · cases goes
  · exact ⟨address, next⟩
  · cases ho
    exact ⟨_, rfl⟩

/-- The straight line is left by branches and jumps only. -/
theorem next_of_straight (ho : m.outcome i = .ok o) (noBranch : i.mnemonic.signals.branch = false)
    (noJump : i.mnemonic.signals.jump = false) : o.next = some (m.pc + 4) ∨
      i.mnemonic.signals.syscall = true ∧ o.next = none := by
  rcases next_cases ho with next | ⟨rfl, -, exits, -⟩ | ⟨label, -, target, -⟩ | ⟨rs, rfl⟩
  · exact .inl next
  · exact .inr ⟨rfl, exits⟩
  · rcases Instr.transfers_of_target target with branch | jump
    · exact absurd branch (by simp [noBranch])
    · exact absurd jump (by simp [noJump])
  · cases noJump

end Machine

namespace Session

theorem report_of_faultless {s : Session} {r : StepReport} (moved : s.advance.1 = .step r)
    (faultless : r.fault = none) : ∃ slot o, s.machine.halted = false ∧
      s.machine.program.slotAt? s.machine.pc = some slot ∧
      s.machine.outcome slot.instr = .ok o ∧
      s.advance.2.machine = s.machine.clearChanges.finish o ∧
      r = report slot s.machine s.advance.2.machine none := by
  obtain ⟨slot, fetched, reported⟩ := eq_report_of_advance moved
  rw [faultless] at reported
  rcases s.advance_cases with ⟨-, advanced⟩ | ⟨_, going, -, advanced⟩
  · rw [advanced] at moved
    cases moved
  · have failed : s.machine.stepIn.2 = none := by
      rw [advanced] at moved
      cases moved
      exact faultless
    have undone := (Bool.or_eq_false_iff.1 going).2
    rcases s.machine.stepIn_cases with ⟨done, -⟩ | ⟨slot', running, fetched', ⟨o, ho, stepped⟩ |
      ⟨f, -, stepped⟩⟩
    · exact absurd done (by simp [undone])
    · cases fetched.symm.trans fetched'
      refine ⟨slot, o, running, fetched, ho, ?_, reported⟩
      rw [advanced, stepped]
    · rw [stepped] at failed
      cases failed

/-- A step does no more than the signals allow with which it is reported. -/
theorem signals_bound_effects {s : Session} {r : StepReport} (moved : s.advance.1 = .step r)
    (faultless : r.fault = none) :
    ∃ slot, s.machine.program.slotAt? s.machine.pc = some slot ∧
      r.signals = slot.instr.mnemonic.signals ∧ r.pcBefore = s.machine.pc ∧
      (r.signals.regWrite = false → r.registers = s.machine.registers) ∧
      (r.signals.regWrite = true → ∀ reg, r.registers.get reg ≠ s.machine.registers.get reg →
        slot.instr.destination? = some reg ∧ (r.signals.link = true → reg = .ra)) ∧
      (r.signals.memWrite = false → r.memory = s.machine.memory) ∧
      (r.signals.memWrite = true → r.memory = s.machine.memory ∨
        ∃ address value, r.memory = s.machine.memory.set address value) ∧
      (r.signals.branch = false → r.signals.jump = false →
        r.pc = if r.signals.syscall && s.advance.2.machine.halted then r.pcBefore
          else r.pcBefore + 4) ∧
      (r.signals.syscall = false → r.output = "" ∧ s.advance.2.machine.halted = false) := by
  obtain ⟨slot, o, running, fetched, ho, after, reported⟩ := report_of_faultless moved faultless
  have allowed := Machine.allowedBy_of_outcome ho
  have registers : r.registers = (s.machine.clearChanges.affected o.effect).registers := by
    rw [reported, report, after, Machine.registers_finish]
  have memory : r.memory = (s.machine.clearChanges.affected o.effect).memory := by
    rw [reported, report, after, Machine.memory_finish]
  have pc : r.pc = o.next.getD s.machine.pc := by
    rw [reported, report, after]
    exact Machine.pc_finish ..
  have halted : s.advance.2.machine.halted = o.next.isNone := by
    rw [after]
    exact s.machine.clearChanges.halted_finish running o
  have signals : r.signals = slot.instr.mnemonic.signals := by rw [reported]; rfl
  have pcBefore : r.pcBefore = s.machine.pc := by rw [reported]; rfl
  rw [signals, registers, memory, pc, pcBefore, halted]
  refine ⟨slot, fetched, rfl, rfl, Machine.registers_of_allowed allowed, ?_,
    Machine.memory_of_allowed allowed, fun _ => Machine.memory_affected _ _, ?_, ?_⟩
  · intro _ reg differs
    have written := Machine.destination_of_allowed allowed differs
    refine ⟨written, fun link => ?_⟩
    exact Option.some.inj (written.symm.trans (Instr.destination?_of_link link))
  · intro noBranch noJump
    rcases Machine.next_of_straight ho noBranch noJump with next | ⟨asked, next⟩
    · simp [next]
    · simp [asked, next]
  · intro silent
    obtain ⟨target, next⟩ := Machine.next_of_not_syscall ho silent
    refine ⟨?_, by rw [next]; rfl⟩
    have printed : s.advance.2.machine.output = s.machine.output ++ "" := by
      rw [after, Machine.output_finish, Machine.printed_of_allowed allowed silent]
      rfl
    rw [reported, report, printed, Text.dropBytes_append]

def linking : Session :=
  start ⟨#[⟨.jump .jal ⟨"f", 7⟩, [], ⟨3, 8⟩⟩], .empty,
    ⟨(∅ : Std.ExtTreeMap String Symbol).insert "f" ⟨0, 0, .text⟩⟩, none⟩ {}

theorem signals_bound_effects_linking : ∃ r, linking.advance.1 = .step r ∧ r.fault = none ∧
    r.signals.regWrite = true ∧ r.signals.link = true ∧ r.registers.get .ra = 4 ∧
    (∀ reg, r.registers.get reg ≠ linking.machine.registers.get reg → reg = .ra) ∧
    r.memory = linking.machine.memory ∧ r.output = "" ∧
    linking.advance.2.machine.halted = false := by
  have moved : linking.advance.1 = .step _ := rfl
  obtain ⟨_, -, -, -, -, registers, memory, -, -, printed⟩ := signals_bound_effects moved rfl
  refine ⟨_, moved, rfl, rfl, rfl, rfl, fun reg differs => ?_, memory rfl, printed rfl⟩
  exact (registers rfl reg differs).2 rfl

end Session

end Mips
