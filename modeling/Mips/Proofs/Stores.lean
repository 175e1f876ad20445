import Mips.Machine

/-!
# Stores

The registers and the memory as the architecture has them, with maps of their own. The zero register
cannot be written, and a cell that was never written reads zero.
-/
namespace Mips

structure Store where
  register : Register → Word
  /-- The words of the cells that were written. -/
  cell? : Word → Option Word

namespace Store

def read (s : Store) (address : Word) : Word :=
  (s.cell? address).getD 0

def assign (s : Store) (r : Register) (value : Word) : Store :=
  { s with register := fun other => if r = other ∧ r ≠ .zero then value else s.register other }

def put (s : Store) (address value : Word) : Store :=
  { s with cell? := fun other => if address = other then some value else s.cell? other }

variable (s : Store) {r : Register}

theorem register_assign_self (free : r ≠ .zero) (value : Word) :
    (s.assign r value).register r = value :=
  if_pos ⟨rfl, free⟩

theorem assign_zero (value : Word) : s.assign .zero value = s := by
  have same : (s.assign .zero value).register = s.register :=
    funext fun other => if_neg fun h => h.2 rfl
  exact congrArg (Store.mk · s.cell?) same

/-- The last value that is given to a register stays. -/
theorem assign_assign (first second : Word) :
    (s.assign r first).assign r second = s.assign r second := by
  refine congrArg (Store.mk · s.cell?) (funext fun other => ?_)
  simp only [assign]
  split <;> rfl

end Store

namespace Machine

def store (m : Machine) : Store where
  register := m.registers.get
  cell? address := m.memory.cells[address]?

variable (m : Machine)

theorem store_writeRegister (r : Register) (value : Word) :
    (m.writeRegister r value).store = m.store.assign r value := by
  refine congrArg (Store.mk · _) (funext fun other => ?_)
  exact m.registers.get_set r other value

theorem store_writeMemory (address value : Word) :
    (m.writeMemory address value).store = m.store.put address value := by
  refine congrArg (Store.mk _) (funext fun other => ?_)
  change (m.memory.cells.insert address value)[other]? = _
  simp only [Std.ExtTreeMap.getElem?_insert, Std.compare_eq_iff_eq, store]

end Machine

end Mips
