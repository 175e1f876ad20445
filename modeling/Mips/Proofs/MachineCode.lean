import Mips.Proofs.Encoding
import Mips.Proofs.Execute
import Mips.Proofs.Layout
import Mips.Proofs.Stores

/-!
# Machine code computes what is executed

The words of an instruction are read back and given the meaning that the architecture gives them,
on the registers and the memory alone. For straight-line instructions whose immediate fits its
field this comes to the same as executing the instruction as written: immediates are put back
together from the fields that they were cut into.
-/
namespace Mips

namespace Store

/-- The meaning of one machine instruction. Additions and addresses extend the sign of their
immediate, bit operations fill it with zeros. There is none for transfers of control. -/
def run? (s : Store) : MachineInstr → Option Store
  | .reg op rd rs rt => some (s.assign rd (op.result (s.register rs) (s.register rt)))
  | .shift op rd rt amount => some (s.assign rd (op.result (s.register rt) amount))
  | .imm .addi rt rs value => some (s.assign rt (s.register rs + value.signExtend 32))
  | .imm .andi rt rs value => some (s.assign rt (s.register rs &&& value.setWidth 32))
  | .imm .ori rt rs value => some (s.assign rt (s.register rs ||| value.setWidth 32))
  | .lui rt value => some (s.assign rt (value.setWidth 32 <<< 16))
  | .mem .lw rt base offset =>
    some (s.assign rt (s.read (s.register base + offset.signExtend 32)))
  | .mem .sw rt base offset =>
    some (s.put (s.register base + offset.signExtend 32) (s.register rt))
  | .jr _ | .syscall | .branch .. | .jump .. => none

def runWord? (s : Store) (w : Word) : Option Store :=
  (MachineInstr.decode w).toOption.bind s.run?

def runWords? (s : Store) (words : List Word) : Option Store :=
  words.foldlM runWord? s

theorem runWord?_encode (s : Store) (i : MachineInstr) : s.runWord? i.encode = s.run? i := by
  rw [runWord?, MachineInstr.decode_encode]
  rfl

theorem runWords?_single (s : Store) (i : MachineInstr) :
    s.runWords? ([i].map MachineInstr.encode) = s.run? i := by
  simp [runWords?, runWord?_encode]

end Store

/-- The straight-line instructions with an immediate that their field can hold. A constant to load
that has more than sixteen bits is loaded in halves; the ones between the signed and the unsigned
range of the field are taken for short and are not kept. -/
def Instr.Fits : Instr → Prop
  | .reg .. | .shift .. | .lui .. | .la .. | .move .. => True
  | .imm .addi _ _ value | .mem _ _ (.offset value _) =>
    -32768 ≤ value.toInt ∧ value.toInt ≤ 32767
  | .imm .andi _ _ value | .imm .ori _ _ value => 0 ≤ value.toInt ∧ value.toInt ≤ 65535
  | .li _ value => ¬(32768 ≤ value.toInt ∧ value.toInt ≤ 65535)
  | .mem _ _ (.label _) | .jr _ | .branch .. | .jump .. | .syscall => False

section Fields

variable {value : Word}

theorem signExtend_low_half (h : -32768 ≤ value.toInt ∧ value.toInt ≤ 32767) :
    (value.setWidth 16).signExtend 32 = value := by
  have whole := BitVec.toInt_eq_toNat_bmod value
  apply BitVec.eq_of_toInt_eq
  rw [BitVec.toInt_signExtend_of_le (by decide), BitVec.toInt_setWidth]
  simp only [Int.bmod_def] at whole ⊢
  omega

theorem setWidth_low_half (h : 0 ≤ value.toInt ∧ value.toInt ≤ 65535) :
    (value.setWidth 16).setWidth 32 = value := by
  have small : value.toNat < 2 ^ 16 := by
    rw [BitVec.toInt_eq_toNat_cond] at h
    split at h <;> omega
  apply BitVec.eq_of_toNat_eq
  simp only [BitVec.toNat_setWidth]
  omega

theorem low_half_shiftLeft (value : Word) :
    (value.setWidth 16).setWidth 32 <<< 16 = value <<< 16 := by
  apply BitVec.eq_of_toNat_eq
  simp only [BitVec.toNat_shiftLeft, BitVec.toNat_setWidth, Nat.shiftLeft_eq]
  omega

/-- A word is put together from its halves. -/
theorem halves_or (value : Word) :
    (value.extractLsb' 16 16).setWidth 32 <<< 16 ||| (value.setWidth 16).setWidth 32 = value := by
  apply BitVec.eq_of_getLsbD_eq
  intro i hi
  by_cases low : i < 16
  · simp [low, hi]
  · have high : i - 16 < 16 := by omega
    have back : 16 + (i - 16) = i := by omega
    simp [low, high, back, hi]

end Fields

/-- Both halves of a constant arrive, also where the register is hardwired. -/
theorem Store.runWords?_loadHalves (s : Store) (rd : Register) (value : Word) :
    s.runWords? ((Instr.loadHalves rd value).map MachineInstr.encode) =
      some (s.assign rd value) := by
  let upper := (value.extractLsb' 16 16).setWidth 32 <<< 16
  let lower := (value.setWidth 16).setWidth 32
  have both : (s.assign rd upper).assign rd ((s.assign rd upper).register rd ||| lower) =
      s.assign rd value := by
    rw [assign_assign]
    by_cases wired : rd = .zero
    · rw [wired, assign_zero, assign_zero]
    · rw [s.register_assign_self wired, halves_or]
  simp only [runWords?, Instr.loadHalves, List.map_cons, List.map_nil, List.foldlM_cons,
    List.foldlM_nil, runWord?_encode, run?, Option.bind_eq_bind, Option.bind_some]
  exact congrArg some both

theorem Instr.expand_la {rd : Register} {label : Label} {pc : Word} {symbols : SymbolTable}
    {words : List MachineInstr} (expanded : expand (.la rd label) pc symbols = .ok words) :
    ∃ address, symbols.address? label.name = some address ∧ words = loadHalves rd address := by
  rw [expand, resolve] at expanded
  cases found : symbols.address? label.name with
  | none => simp [found, Except.map] at expanded
  | some address =>
    rw [found] at expanded
    cases expanded
    exact ⟨address, rfl, rfl⟩

/-- The machine code of an instruction has the effect of the instruction. -/
theorem runWords?_expand {i : Instr} (fits : i.Fits) (m : Machine) {pc : Word}
    {words : List MachineInstr} (expanded : i.expand pc m.program.symbols = .ok words) :
    ∃ after, Machine.execute i m = .ok () after ∧
      m.store.runWords? (words.map MachineInstr.encode) = some after.store := by
  have assigned (r : Register) (value : Word) :
      some (m.store.assign r value) = some (m.writeRegister r value).goOn.store :=
    congrArg some (m.store_writeRegister r value).symm
  have zero : m.store.register .zero = 0#32 := m.registers.get_zero
  cases i with
  | reg op rd rs rt =>
    cases expanded
    exact ⟨_, m.execute_reg .., (Store.runWords?_single ..).trans (assigned ..)⟩
  | shift op rd rt amount =>
    cases expanded
    exact ⟨_, m.execute_shift .., (Store.runWords?_single ..).trans (assigned ..)⟩
  | imm op rt rs value =>
    cases expanded
    refine ⟨_, m.execute_imm .., (Store.runWords?_single ..).trans (.trans ?_ (assigned ..))⟩
    cases op with
    | addi => rw [Store.run?, signExtend_low_half fits]; rfl
    | andi => rw [Store.run?, setWidth_low_half fits]; rfl
    | ori => rw [Store.run?, setWidth_low_half fits]; rfl
  | lui rt value =>
    cases expanded
    refine ⟨_, m.execute_lui .., (Store.runWords?_single ..).trans (.trans ?_ (assigned ..))⟩
    rw [Store.run?, low_half_shiftLeft]
  | li rd value =>
    refine ⟨_, m.execute_li .., .trans ?_ (assigned rd value)⟩
    rw [Instr.expand] at expanded
    split at expanded
    next short =>
      cases expanded
      have range : -32768 ≤ value.toInt ∧ value.toInt ≤ 32767 := by
        simp only [Instr.isShort, Bool.and_eq_true, decide_eq_true_eq] at short
        simp only [Instr.Fits] at fits
        omega
      refine (Store.runWords?_single ..).trans ?_
      rw [Store.run?, signExtend_low_half range, zero, BitVec.zero_add]
    next long =>
      cases expanded
      exact Store.runWords?_loadHalves ..
  | la rd label =>
    obtain ⟨address, found, rfl⟩ := Instr.expand_la expanded
    have resolved : m.resolve label = .ok address := by rw [Machine.resolve, found]
    refine ⟨(m.writeRegister rd address).goOn, ?_,
      (Store.runWords?_loadHalves ..).trans (assigned ..)⟩
    rw [m.execute_la, resolved]
    rfl
  | mem op rt address =>
    cases address with
    | label label => exact fits.elim
    | offset offset base =>
      cases expanded
      cases op with
      | lw =>
        refine ⟨_, m.execute_lw .., (Store.runWords?_single ..).trans (.trans ?_ (assigned ..))⟩
        rw [Store.run?, signExtend_low_half fits]
        rfl
      | sw =>
        refine ⟨_, m.execute_sw .., (Store.runWords?_single ..).trans ?_⟩
        rw [Store.run?, signExtend_low_half fits]
        exact congrArg some (m.store_writeMemory ..).symm
  | move rd rs =>
    cases expanded
    refine ⟨_, m.execute_move .., (Store.runWords?_single ..).trans (.trans ?_ (assigned ..))⟩
    rw [Store.run?, RegOp.result, zero, BitVec.add_zero]
    rfl
  | jr rs | branch op rs rt label | jump op label | syscall => exact fits.elim

/-- In an assembled program the words of a straight-line instruction whose immediate fits, each
written and read back, do to the registers and the memory what a step does. -/
theorem Program.words_compute_step {statements : List Statement} {source : Option String}
    {p : Program} (h : assemble statements source = .ok p) {slot : Slot} (hs : slot ∈ p.slots)
    (fits : slot.instr.Fits) (m : Machine) (hm : m.program = p) :
    ∃ after, Machine.execute slot.instr m = .ok () after ∧
      (m.halted = false → p.slotAt? m.pc = some slot → m.step = .ran after) ∧
      m.store.runWords? (slot.words.map MachineInstr.encode) = some after.store := by
  subst hm
  obtain ⟨n, hn⟩ := Array.mem_iff_getElem?.1 hs
  obtain ⟨after, executed, computed⟩ := runWords?_expand fits m (expand_of_assemble h hn)
  refine ⟨after, executed, ?_, computed⟩
  intro running fetched
  simp [Machine.step, running, fetched, executed]

/-- A constant with the highest bit of both halves set. -/
def Program.signedHalves : List Statement :=
  [⟨[], .instr (.li ⟨8⟩ 0x80008000), ⟨0, 19⟩⟩]

theorem Program.words_compute_step_signedHalves :
    ∃ p, assemble signedHalves none = .ok p ∧ ∃ slot ∈ p.slots, slot.instr.Fits ∧
      ∃ after, ((Machine.new {}).load p).step = .ran after ∧
        ((Machine.new {}).load p).store.runWords? (slot.words.map MachineInstr.encode) =
          some after.store := by
  have fits : Instr.Fits (.li ⟨8⟩ 0x80008000) := by simp [Instr.Fits]
  refine ⟨_, rfl, _, Array.mem_singleton_self _, fits, ?_⟩
  have assembled : assemble signedHalves none = .ok _ := rfl
  obtain ⟨after, _, ran, computed⟩ := words_compute_step assembled (Array.mem_singleton_self _)
    fits ((Machine.new {}).load _) rfl
  exact ⟨after, ran rfl rfl, computed⟩

end Mips
