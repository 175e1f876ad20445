import Mips.Register
import Mips.Word
import Std.Data.ExtTreeSet

/-!
# Changes of a step

What became different since the record was cleared: registers and memory cells that hold another
value, and whether the program counter left the straight line.
-/
namespace Mips

structure Changes where
  registers : Vector Bool 32
  cells : Std.ExtTreeSet Word
  pc : Bool

namespace Changes

def none : Changes :=
  ⟨Vector.replicate 32 false, ∅, false⟩

def markRegister (c : Changes) (r : Register) : Changes :=
  { c with registers := c.registers.set r.index true r.index_lt }

def markCell (c : Changes) (address : Word) : Changes :=
  { c with cells := c.cells.insert address }

def markPc (c : Changes) : Changes :=
  { c with pc := true }

def register (c : Changes) (r : Register) : Bool :=
  c.registers.get r.index

def cell (c : Changes) (address : Word) : Bool :=
  c.cells.contains address

@[ext] theorem ext_noted {c d : Changes} (registers : ∀ r, c.register r = d.register r)
    (cells : ∀ address, c.cell address = d.cell address) (pc : c.pc = d.pc) : c = d := by
  obtain ⟨cr, cc, cp⟩ := c
  obtain ⟨dr, dc, dp⟩ := d
  have sameRegisters : cr = dr := Vector.ext fun i hi => registers (.ofIndex ⟨i, hi⟩)
  have sameCells : cc = dc := Std.ExtTreeSet.ext_contains cells
  rw [sameRegisters, sameCells, show cp = dp from pc]

theorem register_none (r : Register) : none.register r = false :=
  Vector.getElem_replicate r.index_lt

theorem cell_none (address : Word) : none.cell address = false :=
  Std.ExtTreeSet.contains_empty

theorem register_markRegister (c : Changes) (r s : Register) :
    (c.markRegister r).register s = (decide (r = s) || c.register s) := by
  change (c.registers.set r.index true r.index_lt)[s.index.val] = _
  rw [Vector.getElem_set]
  simp only [Fin.val_inj, Register.index_inj]
  by_cases same : r = s
  · rw [if_pos same, decide_eq_true same, Bool.true_or]
  · rw [if_neg same, decide_eq_false same, Bool.false_or]
    rfl

theorem cell_markCell (c : Changes) (address other : Word) :
    (c.markCell address).cell other = (decide (address = other) || c.cell other) := by
  have same : (compare address other == .eq) = decide (address = other) := by
    rw [Bool.eq_iff_iff, beq_iff_eq, Std.compare_eq_iff_eq, decide_eq_true_iff]
  rw [markCell, cell, Std.ExtTreeSet.contains_insert, same, cell]

/-- The changed registers in the order of their numbers. -/
def registerList (c : Changes) : List Register :=
  Register.all.filter c.register

/-- The addresses of the changed cells in ascending order. -/
def cellList (c : Changes) : List Word :=
  c.cells.toList

end Changes

end Mips
