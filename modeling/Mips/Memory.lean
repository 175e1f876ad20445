import Mips.Word
import Std.Data.ExtTreeMap

/-!
# Memory

Memory is sparse: a cell per address that was written, all others read zero. A word takes one cell
and a text takes one cell per character, with a zero cell at its end. Two memories with the same
written cells are equal.
-/
namespace Mips

structure Memory where
  cells : Std.ExtTreeMap Word Word
  deriving Inhabited

namespace Memory

def empty : Memory := ⟨∅⟩

def get (m : Memory) (address : Word) : Word :=
  m.cells[address]?.getD 0

def set (m : Memory) (address value : Word) : Memory :=
  ⟨m.cells.insert address value⟩

/-- Whether writing `value` to an address makes it read differently. -/
def alters (m : Memory) (address value : Word) : Bool :=
  m.get address != value

@[simp] theorem get_empty (address : Word) : empty.get address = 0 := by
  simp [get, empty]

theorem get_set (m : Memory) (address value other : Word) :
    (m.set address value).get other = if address = other then value else m.get other := by
  simp only [get, set, Std.ExtTreeMap.getElem?_insert, Std.compare_eq_iff_eq]
  split <;> rfl

/-- The written cells in ascending order of their addresses. -/
def toList (m : Memory) : List (Word × Word) :=
  m.cells.toList

theorem mem_toList {m : Memory} {cell : Word × Word} :
    cell ∈ m.toList ↔ m.cells[cell.1]? = some cell.2 :=
  Std.ExtTreeMap.mem_toList_iff_getElem?_eq_some

theorem get_of_mem_toList {m : Memory} {cell : Word × Word} (h : cell ∈ m.toList) :
    m.get cell.1 = cell.2 := by
  simp [get, mem_toList.1 h]

def size (m : Memory) : Nat :=
  m.cells.size

/-- Writes values to the addresses beside them, in order. -/
def setAll (m : Memory) (cells : List (Word × Word)) : Memory :=
  cells.foldl (fun m cell => m.set cell.1 cell.2) m

def copyBlock (m block : Memory) : Memory :=
  m.setAll block.toList

/-- The character of a cell. A value that is no character is shown as one that stands for it. -/
def charOf (value : Word) : Char :=
  if value.toNat.isValidChar then Char.ofNat value.toNat else '\ufffd'

/-- The characters from `address` up to the first zero cell, after those in `done`. At most `fuel`
cells are read. -/
def readTextFrom (m : Memory) (fuel : Nat) (address : Word) (done : String) : String :=
  match fuel with
  | 0 => done
  | fuel + 1 =>
    let value := m.get address
    if value = 0 then done else m.readTextFrom fuel (address + 1) (done.push (charOf value))

/-- The text that begins at `address`. It ends before the first zero cell; as only written cells
differ from zero, one is found among as many cells as were written and one more. -/
def readText (m : Memory) (address : Word) : String :=
  m.readTextFrom (m.size + 1) address ""

/-- Writes one character per cell from `address` on and gives the address after them. -/
def writeChars (m : Memory) (address : Word) : List Char → Memory × Word
  | [] => (m, address)
  | c :: rest => (m.set address (BitVec.ofNat 32 c.toNat)).writeChars (address + 1) rest

theorem writeChars_snd (m : Memory) (address : Word) (chars : List Char) :
    (m.writeChars address chars).2 = address + BitVec.ofNat 32 chars.length := by
  induction chars generalizing m address with
  | nil => simp [writeChars]
  | cons c rest ih =>
    rw [writeChars, ih, List.length_cons, BitVec.ofNat_add, BitVec.add_assoc,
      BitVec.add_comm (BitVec.ofNat 32 rest.length)]
    rfl

/-- Writes a text and a zero cell, and gives the address after it. -/
def writeText (m : Memory) (address : Word) (text : String) : Memory × Word :=
  m.writeChars address (text.toList ++ ['\x00'])

/-- A character that is shown beside its code. -/
def isShown (value : Word) : Bool :=
  0x20 ≤ value.toNat && value.toNat ≤ 0x7E

def cellText (address value : Word) : String :=
  let shown := if isShown value then " ('" ++ String.singleton (charOf value) ++ "')" else ""
  address.addressText ++ ": " ++ value.signedText ++ shown ++ "\n"

def text (m : Memory) : String :=
  String.join (m.toList.map fun cell => cellText cell.1 cell.2)

end Memory

end Mips
