import Mips.Instr.Expansion
import Mips.Proofs.Folds

/-!
# Which instructions have machine code

An instruction can fail to have machine code in two ways only: a label whose address it takes as an
operand is not defined, or the label of a branch is defined too far away.
-/
namespace Mips

namespace Instr

/-- The label whose address an instruction takes as an operand, and not as its target. -/
def operandLabel? : Instr → Option Label
  | .la _ label | .mem _ _ (.label label) => some label
  | .mem _ _ (.offset ..) | .branch .. | .jump .. | .reg .. | .shift .. | .jr _ | .imm .. | .lui ..
  | .li .. | .move .. | .syscall => none

/-- The distance in words from the instruction after the one at `pc` to an address. -/
def wordsTo (pc address : Word) : Int :=
  ((address.toNat : Int) - (pc.toNat + 4)) / 4

/-- A branch at `pc` can go to the address. -/
def WithinBranch (pc address : Word) : Prop :=
  -32768 ≤ wordsTo pc address ∧ wordsTo pc address ≤ 32767

variable {label : Label} {pc : Word} {symbols : SymbolTable}

theorem resolve_succeeds_iff :
    (∃ address, resolve label symbols = .ok address) ↔
      ∃ address, symbols.address? label.name = some address := by
  unfold resolve
  cases symbols.address? label.name with
  | none => simp
  | some address => simp

theorem branchOffset_eq_ok {address : Word} {offset : BitVec 16}
    (found : symbols.address? label.name = some address) :
    branchOffset label pc symbols = .ok offset ↔
      WithinBranch pc address ∧ offset = BitVec.ofInt 16 (wordsTo pc address) := by
  have same : ((address.toNat : Int) - (pc.toNat + 4)).fdiv 4 = wordsTo pc address :=
    Int.fdiv_eq_ediv_of_nonneg _ (by decide)
  have range : Extension.signed.least 16 ≤ wordsTo pc address ∧
      wordsTo pc address ≤ Extension.signed.greatest 16 ↔ WithinBranch pc address := Iff.rfl
  unfold branchOffset
  rw [found]
  dsimp only
  rw [same]
  by_cases within : WithinBranch pc address
  · rw [if_pos (range.2 within)]
    simp [within, eq_comm]
  · rw [if_neg fun h => within (range.1 h)]
    simp [within]

theorem branchOffset_succeeds_iff :
    (∃ offset, branchOffset label pc symbols = .ok offset) ↔
      ∀ address, symbols.address? label.name = some address → WithinBranch pc address := by
  cases found : symbols.address? label.name with
  | none => simp [branchOffset, found]
  | some address => simp [branchOffset_eq_ok found]

theorem expand_succeeds_iff {i : Instr} : (∃ words, i.expand pc symbols = .ok words) ↔
    (∀ label, i.operandLabel? = some label →
      ∃ address, symbols.address? label.name = some address) ∧
    ∀ op rs rt label, i = .branch op rs rt label → ∀ address,
      symbols.address? label.name = some address → WithinBranch pc address := by
  cases i with
  | la rd label =>
    simp only [expand, map_succeeds_iff, resolve_succeeds_iff, operandLabel?, Option.some.injEq,
      forall_eq', reduceCtorEq, false_implies, implies_true, and_true]
  | mem op rt address =>
    cases address with
    | label label =>
      simp only [expand, map_succeeds_iff, resolve_succeeds_iff, operandLabel?, Option.some.injEq,
        forall_eq', reduceCtorEq, false_implies, implies_true, and_true]
    | offset offset base => simp [expand, operandLabel?]
  | branch op rs rt label =>
    rw [expand, map_succeeds_iff, branchOffset_succeeds_iff]
    constructor
    · intro within
      refine ⟨nofun, fun _ _ _ _ same => ?_⟩
      cases same
      exact within
    · intro h
      exact h.2 op rs rt label rfl
  | li rd value =>
    by_cases short : isShort value
    · simp [expand, operandLabel?, short]
    · simp [expand, operandLabel?, short]
  | _ => simp [expand, operandLabel?]

end Instr

end Mips
