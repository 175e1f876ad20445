import Mips.Proofs.BoundedRuns

/-!
# How runs end

A run asks its condition before it looks at the program. It is hence noted as interrupted as soon as
the condition fails, also where the program has come to its end just then. Only an instruction that
exits ends the run at once, without the condition being asked again.
-/
namespace Mips.Machine

/-- How a run from `m` ended that met no fault. -/
inductive Ending (go : Machine → Bool) (m : Machine) : Machine → Prop
  /-- The condition failed. If the program had exited, then before the run. -/
  | stopped {last : Machine} : go last = false → (last.halted = true → last = m) →
      Ending go m { last with interrupted := true }
  /-- The condition held, and there was nothing to execute. -/
  | finished {last : Machine} : go last = true → last.isDone = true →
      last.interrupted = m.interrupted → Ending go m last
  | exited {last after : Machine} : go last = true → last.step = .ran after →
      after.halted = true → after.interrupted = m.interrupted → Ending go m after

variable {go : Machine → Bool} {m mid after : Machine}

theorem interrupted_of_step (ran : m.step = .ran after) : after.interrupted = m.interrupted := by
  obtain ⟨-, slot, ⟨effect, next⟩, -, -, rfl⟩ := step_eq_ran.1 ran
  cases next <;> cases effect <;> rfl

theorem Ending.step (ran : m.step = .ran mid) (running : mid.halted = false)
    (ending : Ending go mid after) : Ending go m after := by
  have kept := interrupted_of_step ran
  cases ending with
  | stopped failed unmoved =>
    refine .stopped failed fun halted => ?_
    rw [unmoved halted, running] at halted
    cases halted
  | finished held done same => exact .finished held done (same.trans kept)
  | exited held last halted same => exact .exited held last halted (same.trans kept)

/-- The induction is on the fuel, and each unit of it is one step. -/
theorem ending_resumeWhile {fuel : Nat} (ended : m.resumeWhile go fuel = .ended after none) :
    Ending go m after := by
  induction fuel generalizing m with
  | zero => cases ended
  | succ fuel ih =>
    rw [resumeWhile] at ended
    split at ended
    next held =>
      cases stepped : m.step with
      | ran mid =>
        rw [stepped] at ended
        dsimp only at ended
        split at ended
        next halted =>
          cases ended
          exact .exited held stepped halted (interrupted_of_step stepped)
        next running => exact (ih ended).step stepped (Bool.eq_false_iff.2 running)
      | done =>
        rw [stepped] at ended
        cases ended
        exact .finished held (step_eq_done.1 stepped) rfl
      | fault f =>
        rw [stepped] at ended
        cases ended
    next failed =>
      cases ended
      exact .stopped (Bool.eq_false_iff.2 failed) fun _ => rfl

theorem withinLimit_eq_true {start limit : BitVec 64} :
    withinLimit start limit m = true ↔ (m.executed - start).toNat < limit.toNat := by
  rw [withinLimit, BitVec.ult, decide_eq_true_iff]

theorem ending_runWithLimit {limit : BitVec 64} (unfailing : (m.runWithLimit limit).2 = none) :
    Ending (withinLimit m.executed limit) m.startRun (m.runWithLimit limit).1 := by
  have left : (m.executed - m.executed).toNat + limit.toNat = limit.toNat := by
    rw [BitVec.sub_self, BitVec.toNat_zero, Nat.zero_add]
  obtain ⟨interrupted, ended⟩ := m.resumeWhile_withNotes .none left
  have ran : m.runWhile (withinLimit m.executed limit) (limit.toNat + 1) = _ := ended
  rw [runWithLimit, ran] at unfailing ⊢
  dsimp only at unfailing
  rw [unfailing] at ended
  exact ending_resumeWhile ended

/-- A run with a limit that leaves the program undone has executed as many instructions as the limit
allows, and is noted as interrupted. So is one that leaves it done, if just as many instructions
were executed and the program did not exit in that run. -/
theorem runWithLimit_interrupted (m : Machine) (limit : BitVec 64)
    (unfailing : (m.runWithLimit limit).2 = none) :
    let after := (m.runWithLimit limit).1
    (after.isDone = false → after.interrupted = true ∧ after.executed - m.executed = limit) ∧
    (after.isDone = true → (after.interrupted = true ↔
      after.executed - m.executed = limit ∧ (after.halted = true → limit = 0))) := by
  intro after
  have counted : (after.executed - m.executed).toNat ≤ limit.toNat := by
    rw [(m.agrees_runWithLimit limit).count]
    exact m.executed_stepping_le limit.toNat
  have ending : Ending (withinLimit m.executed limit) m.startRun after :=
    ending_runWithLimit unfailing
  generalize after = after at counted ending
  have spent {last : Machine} (held : withinLimit m.executed limit last = true) :
      last.executed - m.executed ≠ limit := by
    rintro rfl
    exact Nat.lt_irrefl _ (withinLimit_eq_true.1 held)
  cases ending with
  | @stopped last failed unmoved =>
    have all : last.executed - m.executed = limit := by
      have reached := mt withinLimit_eq_true.2 (Bool.eq_false_iff.1 failed)
      exact BitVec.eq_of_toNat_eq (Nat.le_antisymm counted (Nat.not_lt.1 reached))
    refine ⟨fun _ => ⟨rfl, all⟩, fun _ => iff_of_true rfl ⟨all, fun halted => ?_⟩⟩
    rw [← all, unmoved halted]
    exact BitVec.sub_self m.executed
  | finished held done same =>
    refine ⟨fun undone => ?_, fun _ => iff_of_false ?_ fun h => spent held h.1⟩
    · rw [done] at undone
      cases undone
    · rw [same]
      nofun
  | exited held ran halted same =>
    refine ⟨fun undone => ?_, fun _ => iff_of_false ?_ fun h => ?_⟩
    · rw [isDone_of_halted halted] at undone
      cases undone
    · rw [same]
      nofun
    · have positive := withinLimit_eq_true.1 held
      rw [h.2 halted] at positive
      exact absurd positive (Nat.not_lt_zero _)

/-- A program of two instructions that does not exit. -/
def unexiting : List Statement :=
  [⟨[], .instr (.li .v0 10), ⟨0, 10⟩⟩, ⟨[], .instr (.li .a0 1), ⟨11, 20⟩⟩]

def exiting : List Statement :=
  [⟨[], .instr (.li .v0 10), ⟨0, 10⟩⟩, ⟨[], .instr .syscall, ⟨11, 18⟩⟩]

theorem runWithLimit_interrupted_exiting :
    ∃ p after, Program.assemble exiting none = .ok p ∧
      ((new {}).load p).runWithLimit 2 = (after, none) ∧ after.isDone = true ∧
        after.interrupted = false := by
  obtain ⟨p, assembled, unfailing, halted, done⟩ : ∃ p, Program.assemble exiting none = .ok p ∧
      (((new {}).load p).runWithLimit 2).2 = none ∧
        (((new {}).load p).runWithLimit 2).1.halted = true ∧
          (((new {}).load p).runWithLimit 2).1.isDone = true := ⟨_, rfl, rfl, rfl, rfl⟩
  refine ⟨p, _, assembled, Prod.ext rfl unfailing, done, ?_⟩
  refine Bool.eq_false_iff.2 fun interrupted => ?_
  obtain ⟨-, ifExited⟩ := (runWithLimit_interrupted _ 2 unfailing).2 done |>.1 interrupted
  exact absurd (ifExited halted) (by decide)

/-- The run executes all instructions and leaves nothing to do, yet it is noted as interrupted. -/
theorem limit_at_end_interrupts :
    ∃ p after, Program.assemble unexiting none = .ok p ∧
      ((new {}).load p).runWithLimit 2 = (after, none) ∧ after.isDone = true ∧
        after.interrupted = true :=
  ⟨_, _, rfl, rfl, rfl, rfl⟩

end Mips.Machine
