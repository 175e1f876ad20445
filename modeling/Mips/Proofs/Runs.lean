import Mips.Machine.Run
import Mips.Proofs.Outcome

/-!
# Runs as sequences of steps

A step is characterized by what was fetched and the outcome of the instruction. A run to the end of
the program is a number of such steps, to a machine that is done or at a fault; a run that uses up
its fuel has taken one step for each unit of it.
-/
namespace Mips

namespace Machine

variable {m other after : Machine} {f : Fault}

/-- A step of a machine that is not done has the outcome of the instruction that was fetched. -/
theorem step_of_slot {slot : Slot} (running : m.halted = false)
    (fetched : m.program.slotAt? m.pc = some slot) :
    m.step = match m.outcome slot.instr with
      | .ok o => .ran (m.finish o)
      | .error f => .fault f m := by
  rw [step, running, fetched]
  dsimp only [Bool.false_eq_true, if_false]
  rw [execute_eq_finish]
  cases m.outcome slot.instr <;> rfl

theorem step_eq_done : m.step = .done ↔ m.isDone = true := by
  cases halted : m.halted with
  | true => simp [step, isDone, halted]
  | false =>
    cases fetched : m.program.slotAt? m.pc with
    | none => simp [step, isDone, halted, fetched]
    | some slot =>
      rw [step_of_slot halted fetched]
      cases m.outcome slot.instr <;> simp [isDone, halted, fetched]

theorem isDone_eq_false : m.isDone = false ↔
    m.halted = false ∧ ∃ slot, m.program.slotAt? m.pc = some slot := by
  simp [isDone, Option.isSome_iff_exists]

theorem fetched_of_step (undone : m.step ≠ .done) :
    m.halted = false ∧ ∃ slot, m.program.slotAt? m.pc = some slot := by
  rw [← isDone_eq_false, ← Bool.not_eq_true, ← step_eq_done]
  exact undone

theorem step_eq_ran : m.step = .ran after ↔ m.halted = false ∧ ∃ slot o,
    m.program.slotAt? m.pc = some slot ∧ m.outcome slot.instr = .ok o ∧ after = m.finish o := by
  constructor
  · intro ran
    obtain ⟨running, slot, fetched⟩ := fetched_of_step (by rw [ran]; nofun)
    rw [step_of_slot running fetched] at ran
    cases ho : m.outcome slot.instr with
    | ok o =>
      rw [ho] at ran
      cases ran
      exact ⟨running, slot, o, fetched, ho, rfl⟩
    | error f =>
      rw [ho] at ran
      cases ran
  · rintro ⟨running, slot, o, fetched, ho, rfl⟩
    rw [step_of_slot running fetched, ho]

/-- A step that runs into a fault has done nothing. -/
theorem step_eq_fault : m.step = .fault f after ↔ after = m ∧ m.halted = false ∧ ∃ slot,
    m.program.slotAt? m.pc = some slot ∧ m.outcome slot.instr = .error f := by
  constructor
  · intro failed
    obtain ⟨running, slot, fetched⟩ := fetched_of_step (by rw [failed]; nofun)
    rw [step_of_slot running fetched] at failed
    cases ho : m.outcome slot.instr with
    | ok o =>
      rw [ho] at failed
      cases failed
    | error f =>
      rw [ho] at failed
      cases failed
      exact ⟨rfl, running, slot, fetched, ho⟩
  · rintro ⟨rfl, running, slot, fetched, ho⟩
    rw [step_of_slot running fetched, ho]

theorem eq_of_fault (failed : m.step = .fault f after) : after = m :=
  (step_eq_fault.1 failed).1

/-- What `stepIn` does is nothing, an outcome or a fault. -/
theorem stepIn_cases (m : Machine) :
    (m.isDone = true ∧ m.stepIn = (m.clearChanges, none)) ∨
      ∃ slot, m.halted = false ∧ m.program.slotAt? m.pc = some slot ∧
        ((∃ o, m.outcome slot.instr = .ok o ∧ m.stepIn = (m.clearChanges.finish o, none)) ∨
          ∃ f, m.outcome slot.instr = .error f ∧ m.stepIn = (m.clearChanges, some f)) := by
  cases done : m.isDone with
  | true =>
    left
    have rests : m.clearChanges.step = .done := step_eq_done.2 done
    rw [stepIn, rests]
    exact ⟨rfl, rfl⟩
  | false =>
    right
    obtain ⟨running, slot, fetched⟩ := isDone_eq_false.1 done
    have stepped := step_of_slot (m := m.clearChanges) running fetched
    rw [outcome_clearChanges] at stepped
    refine ⟨slot, running, fetched, ?_⟩
    cases ho : m.outcome slot.instr with
    | ok o =>
      left
      rw [ho] at stepped
      rw [stepIn, stepped]
      exact ⟨o, rfl, rfl⟩
    | error f =>
      right
      rw [ho] at stepped
      rw [stepIn, stepped]
      exact ⟨f, rfl, rfl⟩

theorem program_stepIn (m : Machine) : m.stepIn.1.program = m.program := by
  rcases m.stepIn_cases with ⟨-, moved⟩ | ⟨_, -, -, ⟨o, -, moved⟩ | ⟨f, -, moved⟩⟩
  · rw [moved]
    rfl
  · rw [moved]
    exact m.clearChanges.program_finish o
  · rw [moved]
    rfl

theorem output_of_step (ran : m.step = .ran after) : ∃ text, after.output = m.output ++ text := by
  obtain ⟨-, slot, o, -, -, rfl⟩ := step_eq_ran.1 ran
  exact ⟨o.effect.printed, m.output_finish o⟩

theorem snapshot_of_same (same : other.clearChanges = m.clearChanges) :
    other.snapshot = m.snapshot := by
  have cleared : other.clearChanges.snapshot = m.clearChanges.snapshot := congrArg snapshot same
  exact cleared

theorem output_of_same (same : other.clearChanges = m.clearChanges) :
    other.output = m.output :=
  congrArg Snapshot.output (snapshot_of_same same)

theorem outcome_of_same (same : other.clearChanges = m.clearChanges)
    (i : Instr) : other.outcome i = m.outcome i := by
  rw [← other.outcome_clearChanges, same, m.outcome_clearChanges]

theorem fetched_of_same {slot : Slot}
    (same : other.clearChanges = m.clearChanges) (running : m.halted = false)
    (fetched : m.program.slotAt? m.pc = some slot) :
    other.halted = false ∧ other.program.slotAt? other.pc = some slot := by
  have halted : other.clearChanges.halted = m.clearChanges.halted := congrArg halted same
  have placed : other.clearChanges.program.slotAt? other.clearChanges.pc =
      m.clearChanges.program.slotAt? m.clearChanges.pc :=
    congrArg (fun m => m.program.slotAt? m.pc) same
  exact ⟨halted.trans running, placed.trans fetched⟩

theorem isDone_of_same (same : other.clearChanges = m.clearChanges) :
    other.isDone = m.isDone := by
  have cleared : other.clearChanges.isDone = m.clearChanges.isDone := congrArg isDone same
  exact cleared

/-- Machines that differ at most in what was noted as changed take the same step. -/
theorem step_of_same (same : other.clearChanges = m.clearChanges)
    (ran : m.step = .ran after) :
    ∃ next, other.step = .ran next ∧ next.clearChanges = after.clearChanges := by
  obtain ⟨running, slot, o, fetched, ho, rfl⟩ := step_eq_ran.1 ran
  obtain ⟨running, fetched⟩ := fetched_of_same same running fetched
  refine ⟨other.finish o, step_eq_ran.2 ⟨running, slot, o, fetched, ?_, rfl⟩, ?_⟩
  · rw [outcome_of_same same]
    exact ho
  · rw [← other.finish_clearChanges, same, m.finish_clearChanges]

theorem fault_of_same (same : other.clearChanges = m.clearChanges)
    (failed : m.step = .fault f m) : other.step = .fault f other := by
  obtain ⟨-, running, slot, fetched, ho⟩ := step_eq_fault.1 failed
  obtain ⟨running, fetched⟩ := fetched_of_same same running fetched
  refine step_eq_fault.2 ⟨rfl, running, slot, fetched, ?_⟩
  rw [outcome_of_same same]
  exact ho

/-- `Executes n m final` says that `n` steps lead from `m` to `final`. -/
inductive Executes : Nat → Machine → Machine → Prop
  | refl (m : Machine) : Executes 0 m m
  | step {n : Nat} {m mid final : Machine} :
    m.step = .ran mid → Executes n mid final → Executes (n + 1) m final

theorem isDone_of_halted (halted : m.halted = true) : m.isDone = true := by
  rw [isDone, halted, Bool.true_or]

end Machine

/-- What a run from `m` to the end of the program has come to with the given fuel. -/
def Run.Follows (m : Machine) (fuel : Nat) : Run → Prop
  | ended final none => ∃ n, Machine.Executes n m final ∧ final.isDone = true
  | ended final (some f) => ∃ n, Machine.Executes n m final ∧ final.step = .fault f final
  | unfinished final => Machine.Executes fuel m final

theorem Run.Follows.step {m mid : Machine} (ran : m.step = .ran mid) {fuel : Nat} {r : Run}
    (rest : r.Follows mid fuel) : r.Follows m (fuel + 1) := by
  cases r with
  | ended final fault =>
    cases fault with
    | none =>
      obtain ⟨n, executed, done⟩ := rest
      exact ⟨n + 1, .step ran executed, done⟩
    | some f =>
      obtain ⟨n, executed, failed⟩ := rest
      exact ⟨n + 1, .step ran executed, failed⟩
  | unfinished final => exact Machine.Executes.step ran rest

namespace Machine

/-- The induction is on the fuel, and each unit of it is one step. -/
theorem follows_resumeWhile (fuel : Nat) (m : Machine) :
    (m.resumeWhile (fun _ => true) fuel).Follows m fuel := by
  induction fuel generalizing m with
  | zero => exact .refl m
  | succ fuel ih =>
    rw [resumeWhile, if_pos rfl]
    cases hs : m.step with
    | ran mid =>
      dsimp only
      split
      next halted => exact ⟨1, .step hs (.refl mid), isDone_of_halted halted⟩
      next => exact (ih mid).step hs
    | done => exact ⟨0, .refl m, step_eq_done.1 hs⟩
    | fault f after =>
      obtain rfl := eq_of_fault hs
      exact ⟨0, .refl _, hs⟩

end Machine

theorem Program.follows_run (p : Program) (settings : Settings) (fuel : Nat) :
    (p.run settings fuel).Follows ((Machine.new settings).load p) fuel :=
  Machine.follows_resumeWhile fuel ((Machine.new settings).load p)

end Mips
