import Mips.Proofs.Runs

/-!
# What a step notes

A step notes just the difference that it makes: the registers and memory cells that read otherwise
after it, and the program counter if it left the straight line. Notes are taken at three places, at
each write of a register, at each write of a cell and at the end of an instruction. Each of them
adds to what was noted before, so that an outcome needs no cases on instructions, and a step begins
with nothing noted.
-/
namespace Mips

namespace Machine

variable (m : Machine)

/-- A write notes the register if it reads otherwise, which the zero register never does. -/
theorem register_writeRegister (r s : Register) (value : Word) :
    (m.writeRegister r value).changes.register s = true ↔
      m.changes.register s = true ∨ (m.registers.set r value).get s ≠ m.registers.get s := by
  unfold writeRegister
  dsimp only
  split
  next altered =>
    rw [RegisterFile.alters_iff] at altered
    rw [Changes.register_markRegister, Bool.or_eq_true, decide_eq_true_eq]
    constructor
    · rintro (rfl | noted)
      · exact .inr altered
      · exact .inl noted
    · rintro (noted | differs)
      · exact .inr noted
      · exact .inl
          (Decidable.not_not.1 fun other => differs (m.registers.get_set_of_ne other value))
  next unaltered =>
    rw [RegisterFile.alters_iff, ne_eq, Decidable.not_not] at unaltered
    have same : (m.registers.set r value).get s = m.registers.get s := by
      by_cases here : r = s
      · exact here ▸ unaltered
      · exact m.registers.get_set_of_ne here value
    simp [same]

/-- A write notes the cell if it reads otherwise. A cell that was never written reads zero. -/
theorem cell_writeMemory (address other value : Word) :
    (m.writeMemory address value).changes.cell other = true ↔
      m.changes.cell other = true ∨
        (m.memory.set address value).get other ≠ m.memory.get other := by
  have differs : (m.memory.set address value).get other ≠ m.memory.get other ↔
      address = other ∧ m.memory.get address ≠ value := by
    rw [Memory.get_set]
    split
    next here => simp [here, eq_comm]
    next there => simp [there]
  rw [differs]
  unfold writeMemory Memory.alters
  dsimp only
  split
  next altered =>
    rw [Changes.cell_markCell, Bool.or_eq_true, decide_eq_true_eq]
    simp only [bne_iff_ne.1 altered, ne_eq, not_false_eq_true, and_true, or_comm]
  next unaltered => simp [by simpa using unaltered]

theorem register_affected (e : Effect) (r : Register) :
    (m.affected e).changes.register r = true ↔
      m.changes.register r = true ∨ (m.affected e).registers.get r ≠ m.registers.get r := by
  cases e with
  | register s value => exact m.register_writeRegister s r value
  | cell address value =>
    have kept : (m.writeMemory address value).changes.register r = m.changes.register r := by
      unfold writeMemory
      dsimp only
      split <;> rfl
    rw [affected, kept]
    exact (or_iff_left fun differs => differs rfl).symm
  | nothing | text => exact (or_iff_left fun differs => differs rfl).symm

theorem cell_affected (e : Effect) (address : Word) :
    (m.affected e).changes.cell address = true ↔
      m.changes.cell address = true ∨ (m.affected e).memory.get address ≠ m.memory.get address := by
  cases e with
  | cell other value => exact m.cell_writeMemory other address value
  | register r value =>
    have kept : (m.writeRegister r value).changes.cell address = m.changes.cell address := by
      unfold writeRegister
      dsimp only
      split <;> rfl
    rw [affected, kept]
    exact (or_iff_left fun differs => differs rfl).symm
  | nothing | text => exact (or_iff_left fun differs => differs rfl).symm

theorem register_goTo (target : Word) (r : Register) :
    (m.goTo target).changes.register r = m.changes.register r := by
  unfold goTo count
  dsimp only
  split <;> rfl

theorem cell_goTo (target address : Word) :
    (m.goTo target).changes.cell address = m.changes.cell address := by
  unfold goTo count
  dsimp only
  split <;> rfl

theorem pc_goTo (target : Word) :
    (m.goTo target).changes.pc = true ↔ m.changes.pc = true ∨ target ≠ m.pc + 4 := by
  unfold goTo count
  dsimp only
  split
  next straight => exact (or_iff_left fun astray => astray straight).symm
  next astray => exact iff_of_true rfl (.inr astray)

theorem pc_changes_affected (e : Effect) : (m.affected e).changes.pc = m.changes.pc := by
  cases e with
  | nothing | text => rfl
  | register r value =>
    unfold affected writeRegister
    dsimp only
    split <;> rfl
  | cell address value =>
    unfold affected writeMemory
    dsimp only
    split <;> rfl

theorem register_finish (o : Outcome) (r : Register) :
    (m.finish o).changes.register r = true ↔
      m.changes.register r = true ∨ (m.finish o).registers.get r ≠ m.registers.get r := by
  unfold finish
  split
  next => rw [register_goTo]; exact m.register_affected o.effect r
  next => exact m.register_affected o.effect r

theorem cell_finish (o : Outcome) (address : Word) :
    (m.finish o).changes.cell address = true ↔
      m.changes.cell address = true ∨ (m.finish o).memory.get address ≠ m.memory.get address := by
  unfold finish
  split
  next => rw [cell_goTo]; exact m.cell_affected o.effect address
  next => exact m.cell_affected o.effect address

/-- Where the program exits, the program counter stays and is not noted. -/
theorem pc_changes_finish (o : Outcome) : (m.finish o).changes.pc = true ↔
    m.changes.pc = true ∨ o.next.isNone = false ∧ (m.finish o).pc ≠ m.pc + 4 := by
  rw [pc_finish]
  unfold finish
  cases o.next with
  | some target => rw [pc_goTo, pc_changes_affected, pc_affected]; simp
  | none =>
    change (m.affected o.effect).changes.pc = true ↔ _
    rw [pc_changes_affected]
    simp

/-- A step notes a register or a cell just if it reads otherwise than before, and the program
counter just if an instruction was executed that neither exited nor went on to the next one. -/
theorem stepIn_notes_difference :
    (∀ r, m.stepIn.1.changes.register r = true ↔
      m.stepIn.1.registers.get r ≠ m.registers.get r) ∧
    (∀ address, m.stepIn.1.changes.cell address = true ↔
      m.stepIn.1.memory.get address ≠ m.memory.get address) ∧
    (m.stepIn.1.changes.pc = true ↔ m.isDone = false ∧ m.stepIn.2 = none ∧
      m.stepIn.1.halted = false ∧ m.stepIn.1.pc ≠ m.pc + 4) := by
  have nothing : m.clearChanges.changes = .none := rfl
  have rests : (∀ r, m.clearChanges.changes.register r = true ↔
        m.clearChanges.registers.get r ≠ m.registers.get r) ∧
      (∀ address, m.clearChanges.changes.cell address = true ↔
        m.clearChanges.memory.get address ≠ m.memory.get address) ∧
      m.clearChanges.changes.pc = false := by
    refine ⟨fun r => ?_, fun address => ?_, rfl⟩
    · rw [nothing, Changes.register_none]
      exact iff_of_false Bool.false_ne_true fun differs => differs rfl
    · rw [nothing, Changes.cell_none]
      exact iff_of_false Bool.false_ne_true fun differs => differs rfl
  obtain ⟨registers, cells, pc⟩ := rests
  rcases m.stepIn_cases with ⟨done, moved⟩ | ⟨slot, running, fetched, ⟨o, -, moved⟩ | ⟨f, -, moved⟩⟩
  · rw [moved]
    refine ⟨registers, cells, ?_⟩
    rw [pc, done]
    exact iff_of_false Bool.false_ne_true fun h => Bool.false_ne_true h.1.symm
  · have undone : m.isDone = false := isDone_eq_false.2 ⟨running, slot, fetched⟩
    rw [moved]
    refine ⟨fun r => ?_, fun address => ?_, ?_⟩
    · rw [register_finish, nothing, Changes.register_none]
      exact or_iff_right Bool.false_ne_true
    · rw [cell_finish, nothing, Changes.cell_none]
      exact or_iff_right Bool.false_ne_true
    · rw [pc_changes_finish, m.clearChanges.halted_finish running, undone, pc,
        or_iff_right Bool.false_ne_true, and_iff_right rfl, and_iff_right rfl]
      rfl
  · rw [moved]
    refine ⟨registers, cells, ?_⟩
    rw [pc]
    exact iff_of_false Bool.false_ne_true fun h => nomatch h.2.1

end Machine

end Mips
