import Mips.Register
import Mips.Text.Padding
import Mips.Word

/-!
# The register file

A word for each register. The zero register is hardwired: it reads zero whatever is written to it,
and no register file has another value there.
-/
namespace Mips

structure RegisterFile where
  values : Vector Word 32
  hardwired : values[Register.zero.index] = 0
  deriving DecidableEq

namespace RegisterFile

def zeroed : RegisterFile :=
  ⟨Vector.replicate 32 0, Vector.getElem_replicate _⟩

def get (f : RegisterFile) (r : Register) : Word :=
  f.values[r.index]

/-- Writes a register. A write to the zero register has no effect. -/
def set (f : RegisterFile) (r : Register) (value : Word) : RegisterFile :=
  if h : r = .zero then f
  else
    ⟨f.values.set r.index value, by
      have other : r.index.val ≠ Register.zero.index.val :=
        fun same => h (Register.index_inj.1 (Fin.ext same))
      rw [Fin.getElem_fin, Vector.getElem_set_ne _ _ other]
      exact f.hardwired⟩

/-- Whether writing `value` to a register makes it read differently. -/
def alters (f : RegisterFile) (r : Register) (value : Word) : Bool :=
  r != .zero && value != f.get r

@[ext] theorem ext_get {f g : RegisterFile} (h : ∀ r, f.get r = g.get r) : f = g := by
  obtain ⟨fs, _⟩ := f
  obtain ⟨gs, _⟩ := g
  congr 1
  apply Vector.ext
  intro i hi
  exact h (.ofIndex ⟨i, hi⟩)

@[simp] theorem get_zero (f : RegisterFile) : f.get .zero = 0#32 := f.hardwired

theorem get_set (f : RegisterFile) (r s : Register) (value : Word) :
    (f.set r value).get s = if r = s ∧ r ≠ .zero then value else f.get s := by
  unfold set
  split
  next h => simp [h]
  next h =>
    simp only [get, h, Fin.getElem_fin, Vector.getElem_set, Fin.val_inj, Register.index_inj,
      ne_eq, not_false_eq_true, and_true]

theorem get_set_of_ne (f : RegisterFile) {r s : Register} (other : r ≠ s) (value : Word) :
    (f.set r value).get s = f.get s := by
  rw [get_set, if_neg fun h => other h.1]

theorem alters_iff (f : RegisterFile) (r : Register) (value : Word) :
    f.alters r value ↔ (f.set r value).get r ≠ f.get r := by
  simp only [alters, Bool.and_eq_true, bne_iff_ne, get_set, true_and]
  split <;> simp_all

/-- Every register with its value, in the order of their numbers. -/
def toList (f : RegisterFile) : List (Register × Word) :=
  Register.all.map fun r => (r, f.get r)

/-- One register in the table, with the space or newline after it. The table has four columns. -/
def cellText (r : Register) (value : Word) : String :=
  Text.padLeft 5 r.text ++ " = " ++ Text.padRight 11 value.signedText ++
    if r.number.toNat % 4 = 3 then "\n" else "  "

def text (f : RegisterFile) : String :=
  String.join (f.toList.map fun entry => cellText entry.1 entry.2)

end RegisterFile

end Mips
