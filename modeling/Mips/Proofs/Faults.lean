import Mips.Proofs.Expansion
import Mips.Proofs.Layout
import Mips.Proofs.Runs

/-!
# Faults

A step fails in one way only: the instruction goes to a label that the program does not have. Labels
whose address is an operand were resolved when the program was assembled, and a branch that is not
taken needs no label. A step that fails has done nothing, so that the next one fails in the same
way.
-/
namespace Mips

/-- The instruction goes to a label that does not exist. A branch goes there only if it is taken. -/
inductive Instr.GoesNowhere (symbols : SymbolTable) (registers : RegisterFile) :
    Instr → Label → Prop
  | jump {op : JumpOp} {label : Label} : symbols.address? label.name = none →
      GoesNowhere symbols registers (.jump op label) label
  | beq {rs rt : Register} {label : Label} : registers.get rs = registers.get rt →
      symbols.address? label.name = none →
      GoesNowhere symbols registers (.branch .beq rs rt label) label
  | bne {rs rt : Register} {label : Label} : registers.get rs ≠ registers.get rt →
      symbols.address? label.name = none →
      GoesNowhere symbols registers (.branch .bne rs rt label) label

theorem Instr.GoesNowhere.operandLabel? {symbols : SymbolTable} {registers : RegisterFile}
    {i : Instr} {label : Label} (nowhere : i.GoesNowhere symbols registers label) :
    i.operandLabel? = none := by
  cases nowhere <;> rfl

namespace Machine

variable {m : Machine} {label : Label} {f : Fault}

theorem map_resolve_eq_error {α : Type} {g : Word → α} : (m.resolve label).map g = .error f ↔
    m.program.symbols.address? label.name = none ∧ f = ⟨label.name⟩ := by
  cases found : m.program.symbols.address? label.name with
  | some address => simp [resolve, found, Except.map]
  | none => simp [resolve, found, Except.map, eq_comm]

theorem outcome_jump_eq_error {op : JumpOp} : m.outcome (.jump op label) = .error f ↔
    m.program.symbols.address? label.name = none ∧ f = ⟨label.name⟩ := by
  cases op with
  | j => exact map_resolve_eq_error
  | jal => exact map_resolve_eq_error

theorem outcome_branch_eq_error {op : BranchOp} {rs rt : Register} :
    m.outcome (.branch op rs rt label) = .error f ↔
      op.holds (m.registers.get rs) (m.registers.get rt) = true ∧
        m.program.symbols.address? label.name = none ∧ f = ⟨label.name⟩ := by
  rw [outcome]
  split
  next taken => simp only [map_resolve_eq_error, taken, true_and]
  next passed => exact iff_of_false (fun failed => by cases failed) fun h => passed h.1

/-- An instruction whose operands have their labels fails just if it goes nowhere. -/
theorem outcome_eq_error {i : Instr} (operands : ∀ label, i.operandLabel? = some label →
      ∃ address, m.program.symbols.address? label.name = some address) :
    m.outcome i = .error f ↔
      ∃ label, i.GoesNowhere m.program.symbols m.registers label ∧ f = ⟨label.name⟩ := by
  constructor
  · intro failed
    cases i with
    | la rd label =>
      obtain ⟨missing, -⟩ := map_resolve_eq_error.1 failed
      obtain ⟨address, found⟩ := operands label rfl
      rw [found] at missing
      cases missing
    | mem op rt address =>
      cases address with
      | offset offset base => cases op <;> cases failed
      | label label =>
        have missing : m.program.symbols.address? label.name = none := by
          cases op <;> exact (map_resolve_eq_error.1 failed).1
        obtain ⟨address, found⟩ := operands label rfl
        rw [found] at missing
        cases missing
    | branch op rs rt label =>
      obtain ⟨taken, missing, rfl⟩ := outcome_branch_eq_error.1 failed
      refine ⟨label, ?_, rfl⟩
      cases op with
      | beq => exact .beq (beq_iff_eq.1 taken) missing
      | bne => exact .bne (bne_iff_ne.1 taken) missing
    | jump op label =>
      obtain ⟨missing, rfl⟩ := outcome_jump_eq_error.1 failed
      exact ⟨label, .jump missing, rfl⟩
    | _ => cases failed
  · rintro ⟨label, nowhere, rfl⟩
    cases nowhere with
    | jump missing => exact outcome_jump_eq_error.2 ⟨missing, rfl⟩
    | beq equal missing =>
      exact outcome_branch_eq_error.2 ⟨beq_iff_eq.2 equal, missing, rfl⟩
    | bne unequal missing =>
      exact outcome_branch_eq_error.2 ⟨bne_iff_ne.2 unequal, missing, rfl⟩

theorem stepIn_snd_eq_some : m.stepIn.2 = some f ↔ m.isDone = false ∧
    ∃ slot, m.program.slotAt? m.pc = some slot ∧ m.outcome slot.instr = .error f := by
  rcases m.stepIn_cases with ⟨done, moved⟩ | ⟨slot, running, fetched, stepped⟩
  · rw [moved]
    exact iff_of_false nofun fun h => Bool.false_ne_true (h.1.symm.trans done)
  · have undone : m.isDone = false := isDone_eq_false.2 ⟨running, slot, fetched⟩
    have only : (∃ slot, m.program.slotAt? m.pc = some slot ∧ m.outcome slot.instr = .error f) ↔
        m.outcome slot.instr = .error f := by
      simp only [fetched, Option.some.injEq, exists_eq_left']
    rw [only]
    rcases stepped with ⟨o, ho, moved⟩ | ⟨f', ho, moved⟩
    · rw [moved, ho]
      exact iff_of_false nofun nofun
    · rw [moved, ho]
      simp only [undone, true_and, Option.some.injEq, Except.error.injEq]

/-- Where a step fails, nothing was done but to clear the notes. -/
theorem stepIn_fst_of_fault (failed : m.stepIn.2 = some f) : m.stepIn.1 = m.clearChanges := by
  rcases m.stepIn_cases with ⟨-, moved⟩ | ⟨_, -, -, ⟨o, -, moved⟩ | ⟨f', -, moved⟩⟩
  · rw [moved]
  · rw [moved] at failed
    cases failed
  · rw [moved]

end Machine

namespace Program

/-- The machines to which steps lead from one into which the program was loaded. -/
inductive Reaches (p : Program) : Machine → Prop
  | load (m : Machine) : p.Reaches (m.load p)
  | stepIn {m : Machine} : p.Reaches m → p.Reaches m.stepIn.1

theorem Reaches.program {p : Program} {m : Machine} (h : p.Reaches m) : m.program = p := by
  induction h with
  | load m => rfl
  | stepIn _ ih => exact (Machine.program_stepIn _).trans ih

variable {statements : List Statement} {source : Option String} {p : Program} {m : Machine}

theorem operands_of_assemble (h : assemble statements source = .ok p) {pc : Word} {slot : Slot}
    (fetched : p.slotAt? pc = some slot) (label : Label)
    (taken : slot.instr.operandLabel? = some label) :
    ∃ address, p.symbols.address? label.name = some address := by
  obtain ⟨n, -, hn⟩ := Option.bind_eq_some_iff.1 fetched
  exact (Instr.expand_succeeds_iff.1 ⟨_, expand_of_assemble h hn⟩).1 label taken

/-- A step of an assembled program fails just if the instruction goes to a label that the program
does not have. Nothing has happened then, and the next step fails in the same way. -/
theorem stepIn_fails_iff_goesNowhere (h : assemble statements source = .ok p)
    (reached : p.Reaches m) :
    (∀ f, m.stepIn.2 = some f ↔ m.isDone = false ∧ ∃ slot label,
      p.slotAt? m.pc = some slot ∧ slot.instr.GoesNowhere p.symbols m.registers label ∧
        f = ⟨label.name⟩) ∧
    (∀ slot label, p.slotAt? m.pc = some slot → slot.instr.operandLabel? = some label →
      m.stepIn.2 = none) ∧
    ∀ f, m.stepIn.2 = some f → m.stepIn.1 = { m with changes := .none } ∧
      m.stepIn.1.stepIn = (m.stepIn.1, some f) := by
  have loaded : m.program = p := reached.program
  have failing : ∀ f, m.stepIn.2 = some f ↔ m.isDone = false ∧ ∃ slot label,
      p.slotAt? m.pc = some slot ∧ slot.instr.GoesNowhere p.symbols m.registers label ∧
        f = ⟨label.name⟩ := by
    intro f
    rw [Machine.stepIn_snd_eq_some, loaded]
    refine and_congr_right fun _ => exists_congr fun slot => ?_
    rw [exists_and_left]
    refine and_congr_right fun fetched => ?_
    have operands := operands_of_assemble h fetched
    rw [← loaded] at operands ⊢
    exact Machine.outcome_eq_error operands
  refine ⟨failing, ?_, ?_⟩
  · intro slot label fetched taken
    rw [Option.eq_none_iff_forall_ne_some]
    intro f failed
    obtain ⟨-, other, _, fetched', nowhere, -⟩ := (failing f).1 failed
    cases fetched.symm.trans fetched'
    rw [nowhere.operandLabel?] at taken
    cases taken
  · intro f failed
    have kept : m.stepIn.1 = m.clearChanges := Machine.stepIn_fst_of_fault failed
    have again : m.clearChanges.stepIn = m.stepIn := rfl
    refine ⟨kept, ?_⟩
    rw [kept, again, ← kept, ← failed]

/-- A linking jump to a label that does not exist, after one instruction. -/
def astray : List Statement :=
  [⟨[], .instr (.li ⟨8⟩ 1), ⟨0, 9⟩⟩, ⟨[], .instr (.jump .jal ⟨"nowhere", 14⟩), ⟨10, 21⟩⟩]

theorem stepIn_fails_iff_goesNowhere_astray :
    ∃ p m, assemble astray none = .ok p ∧ p.Reaches m ∧ m.registers.get ⟨8⟩ = 1 ∧
      m.stepIn.2 = some ⟨"nowhere"⟩ ∧ m.stepIn.1 = { m with changes := .none } := by
  have assembled : assemble astray none = .ok _ := rfl
  obtain ⟨failing, -, kept⟩ :=
    stepIn_fails_iff_goesNowhere assembled (Reaches.load (Machine.new {})).stepIn
  have failed := (failing ⟨"nowhere"⟩).2 ⟨rfl, _, _, rfl, .jump rfl, rfl⟩
  exact ⟨_, _, assembled, (Reaches.load (Machine.new {})).stepIn, rfl, failed, (kept _ failed).1⟩

end Program

end Mips
