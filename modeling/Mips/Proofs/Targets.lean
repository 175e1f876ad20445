import Mips.Proofs.Encoding
import Mips.Proofs.Expansion
import Mips.Proofs.Positions
import Mips.Proofs.Runs

/-!
# Where encoded branches and jumps lead

A step goes to the address of the label, while a word has only some bits for it. A branch has the
distance in words, which is exact because addresses of the text segment are multiples of four, and
a branch to a label that is too far away, as all data is, is not assembled. A jump has 26 bits of
the address and is always assembled: it leads to its label just if this is in the text segment.
-/
namespace Mips

open Statement

namespace Program

variable {statements : List Statement} {source : Option String} {p : Program} {name : String}
  {symbol : Symbol}

theorem size_of_assemble (h : assemble statements source = .ok p) :
    p.size = (instrs statements).length := by
  have slots := congrArg List.length (source_slots_of_assemble h)
  rwa [List.length_map, Array.length_toList] at slots

/-- A label of the text segment lies at an instruction or behind the last one, and a label of the
data segment behind its base. -/
theorem symbol_cases (h : assemble statements source = .ok p)
    (found : p.symbols.find? name = some symbol) :
    (symbol.segment = .text ∧ ∃ k ≤ p.size, symbol.address = BitVec.ofNat 32 (4 * k)) ∨
      symbol.segment = .data ∧ dataBase.toNat ≤ symbol.address.toNat := by
  obtain ⟨c, l, first, -, -⟩ := assemble_eq_ok.1 h
  obtain ⟨before, s, inside, -, address, segment⟩ :=
    SymbolTable.describes_of_foldlM first name symbol found
  have room := (SymbolTable.tracks_of_foldlM first).room
  have earlier : before <+: statements := (List.prefix_append before [s]).trans inside
  unfold addressAfter at address
  cases here : segmentAfter before with
  | text =>
    left
    rw [here] at address segment
    refine ⟨segment, instrsSinceText before, ?_, address.trans (BitVec.zero_add _)⟩
    rw [size_of_assemble h]
    exact Nat.le_trans (instrsSinceText_le before) (earlier.sublist.filterMap instr?).length_le
  | data =>
    right
    rw [here] at address segment
    have fewer := dataBytes_le earlier
    refine ⟨segment, ?_⟩
    rw [address, toNat_dataAddress (by omega)]
    exact Nat.le_add_right ..

end Program

namespace Instr

variable {label : Label} {pc address : Word} {symbols : SymbolTable} {offset : BitVec 16}

/-- A distance that a branch can have is read back from its field, in bytes. -/
theorem signExtend_shiftLeft_ofInt {words : Int} (low : -32768 ≤ words) (high : words ≤ 32767) :
    (BitVec.ofInt 16 words).signExtend 32 <<< 2 = BitVec.ofInt 32 (4 * words) := by
  have kept : (BitVec.ofInt 16 words).toInt = words := by
    rw [BitVec.toInt_ofInt]
    exact Int.bmod_eq_of_le (by omega) (by omega)
  rw [BitVec.signExtend, kept, BitVec.shiftLeft_eq_mul_twoPow, BitVec.mul_comm, BitVec.ofInt_mul]
  rfl

/-- Between multiples of four, the distance in words is exact. -/
theorem branchTarget?_of_branchOffset (found : symbols.address? label.name = some address)
    (aligned : 4 ∣ pc.toNat) (aligned' : 4 ∣ address.toNat)
    (encoded : branchOffset label pc symbols = .ok offset) (op : BranchOp) (rs rt : Register) :
    (MachineInstr.branch op rs rt offset).branchTarget? pc = some address := by
  obtain ⟨⟨low, high⟩, rfl⟩ := (branchOffset_eq_ok found).1 encoded
  have distance : pc.toNat + 4 + 4 * wordsTo pc address = (address.toNat : Int) := by
    unfold wordsTo
    omega
  have start : pc = BitVec.ofInt 32 pc.toNat := by simp
  rw [MachineInstr.branchTarget?, signExtend_shiftLeft_ofInt low high, Option.some.injEq]
  calc pc + 4 + BitVec.ofInt 32 (4 * wordsTo pc address)
    _ = BitVec.ofInt 32 pc.toNat + BitVec.ofInt 32 4 +
        BitVec.ofInt 32 (4 * wordsTo pc address) := by
      rw [← start]
      rfl
    _ = BitVec.ofInt 32 (pc.toNat + 4 + 4 * wordsTo pc address) := by
      rw [BitVec.ofInt_add, BitVec.ofInt_add]
    _ = address := by
      rw [distance]
      simp

/-- A jump keeps 26 bits of the number of the word at an address. -/
theorem toNat_jumpAddress_jumpField (found : symbols.address? label.name = some address) :
    (MachineInstr.jumpAddress (jumpField label symbols)).toNat =
      4 * (address.toNat / 4 % 2 ^ 26) := by
  rw [jumpField, found]
  simp only [MachineInstr.jumpAddress, Option.getD_some, BitVec.toNat_shiftLeft,
    BitVec.toNat_setWidth, BitVec.toNat_ushiftRight, Nat.shiftLeft_eq, Nat.shiftRight_eq_div_pow]
  omega

/-- The field of a jump has room for an address just if the address is that of a word and is less
than 2^28. -/
theorem jumpAddress_jumpField_eq_iff (found : symbols.address? label.name = some address) :
    MachineInstr.jumpAddress (jumpField label symbols) = address ↔
      4 ∣ address.toNat ∧ address.toNat < 2 ^ 28 := by
  rw [← BitVec.toNat_inj, toNat_jumpAddress_jumpField found]
  omega

end Instr

namespace Machine

variable {m : Machine} {slot : Slot} {label : Label} {address : Word}

/-- The machine is about to execute the instruction in the slot with the given number. -/
structure At (m : Machine) (p : Program) (n : Nat) : Prop where
  program : m.program = p
  running : m.halted = false
  pc : m.pc = BitVec.ofNat 32 (4 * n)

theorem step_of_next {o : Outcome} (running : m.halted = false)
    (fetched : m.program.slotAt? m.pc = some slot) (ho : m.outcome slot.instr = .ok o)
    (next : o.next = some address) : ∃ after, m.step = .ran after ∧ after.pc = address := by
  refine ⟨m.finish o, step_eq_ran.2 ⟨running, slot, o, fetched, ho, rfl⟩, ?_⟩
  rw [finish, next]
  rfl

theorem At.fetched {p : Program} {n : Nat} (here : m.At p n) (few : n < 2 ^ 30)
    (hn : p.slots[n]? = some slot) : m.program.slotAt? m.pc = some slot := by
  rw [here.program, here.pc, Program.slotAt?_ofNat few, hn]

theorem resolve_eq_ok (found : m.program.symbols.address? label.name = some address) :
    m.resolve label = .ok address := by
  rw [resolve, found]

/-- A jump and a branch that is taken go to the address of their label. -/
theorem step_of_transfer (running : m.halted = false)
    (fetched : m.program.slotAt? m.pc = some slot)
    (found : m.program.symbols.address? label.name = some address)
    (transfer : (∃ op, slot.instr = .jump op label) ∨ ∃ op rs rt,
      slot.instr = .branch op rs rt label ∧ op.holds (m.registers.get rs) (m.registers.get rt)) :
    ∃ after, m.step = .ran after ∧ after.pc = address := by
  have resolved := resolve_eq_ok found
  rcases transfer with ⟨op, hi⟩ | ⟨op, rs, rt, hi, taken⟩
  · cases op with
    | j =>
      refine step_of_next running fetched (o := ⟨.nothing, some address⟩) ?_ rfl
      rw [hi, outcome, resolved]
      rfl
    | jal =>
      refine step_of_next running fetched (o := ⟨.register .ra (m.pc + 4), some address⟩) ?_ rfl
      rw [hi, outcome, resolved]
      rfl
  · refine step_of_next running fetched (o := ⟨.nothing, some address⟩) ?_ rfl
    rw [hi, outcome, if_pos taken, resolved]
    rfl

end Machine

namespace Program

variable {statements : List Statement} {source : Option String} {p : Program}

theorem lt_size_of_getElem? {n : Nat} {slot : Slot} (hn : p.slots[n]? = some slot) : n < p.size :=
  (Array.getElem?_eq_some_iff.1 hn).1

/-- The label of an assembled branch is not in the data segment, which is out of its reach. -/
theorem segment_of_branch (few : p.size < 2 ^ 25) (h : assemble statements source = .ok p)
    {n : Nat} {slot : Slot} (hn : p.slots[n]? = some slot) {op : BranchOp} {rs rt : Register}
    {label : Label} (hi : slot.instr = .branch op rs rt label) {symbol : Symbol}
    (found : p.symbols.find? label.name = some symbol) :
    symbol.segment = .text ∧ 4 ∣ symbol.address.toNat := by
  have inside := lt_size_of_getElem? hn
  rcases symbol_cases h found with ⟨text, k, le, here⟩ | ⟨data, far⟩
  · refine ⟨text, ?_⟩
    rw [here, toNat_slotAddress (by omega)]
    exact Nat.dvd_mul_right 4 k
  · have expanded : ∃ words, slot.instr.expand (BitVec.ofNat 32 (4 * n)) p.symbols = .ok words :=
      ⟨slot.words, slotAddress_eq n ▸ expand_of_assemble h hn⟩
    have within := (Instr.expand_succeeds_iff.1 expanded).2 op rs rt label hi symbol.address
      (SymbolTable.address?_eq_some.2 ⟨symbol, found, rfl⟩)
    have least : 0x10010000 ≤ symbol.address.toNat := far
    unfold Instr.WithinBranch Instr.wordsTo at within
    rw [toNat_slotAddress (by omega)] at within
    omega

/-- The word of a branch is that branch, and leads to the address of its label, where a step goes
that takes the branch. A label that does not exist leaves the distance zero. -/
theorem branches_lead_to_labels (few : p.size < 2 ^ 25) (h : assemble statements source = .ok p)
    {n : Nat} {slot : Slot} (hn : p.slots[n]? = some slot) {op : BranchOp} {rs rt : Register}
    {label : Label} (hi : slot.instr = .branch op rs rt label) :
    ∃ i offset, slot.words = [i] ∧
      MachineInstr.decode i.encode = .ok (.branch op rs rt offset) ∧
      (∀ address, p.symbols.address? label.name = some address →
        (MachineInstr.branch op rs rt offset).branchTarget? (BitVec.ofNat 32 (4 * n)) =
          some address ∧
        ∀ m : Machine, m.At p n → op.holds (m.registers.get rs) (m.registers.get rt) = true →
          ∃ after, m.step = .ran after ∧ after.pc = address) ∧
      (∀ symbol, p.symbols.find? label.name = some symbol → symbol.segment = .text) ∧
      (p.symbols.address? label.name = none → offset = 0) := by
  have small : n < 2 ^ 30 := by
    have := lt_size_of_getElem? hn
    omega
  have expanded := expand_of_assemble h hn
  rw [hi, slotAddress_eq] at expanded
  obtain ⟨offset, encoded, words⟩ := map_eq_ok.1 expanded
  refine ⟨.branch op rs rt offset, offset, words.symm, MachineInstr.decode_encode _, ?_, ?_, ?_⟩
  · intro address known
    obtain ⟨symbol, found, rfl⟩ := SymbolTable.address?_eq_some.1 known
    obtain ⟨-, aligned⟩ := segment_of_branch few h hn hi found
    constructor
    · refine Instr.branchTarget?_of_branchOffset known ?_ aligned encoded op rs rt
      rw [toNat_slotAddress small]
      exact Nat.dvd_mul_right 4 n
    · intro m here taken
      rw [← here.program] at known
      exact Machine.step_of_transfer here.running (here.fetched small hn) known
        (.inr ⟨op, rs, rt, hi, taken⟩)
  · intro symbol found
    exact (segment_of_branch few h hn hi found).1
  · intro missing
    rw [Instr.branchOffset, missing] at encoded
    cases encoded
    rfl

/-- A branch to itself, one behind the last instruction and one to a label that does not exist. -/
def branching : List Statement :=
  [⟨[⟨"a", 0⟩], .instr (.branch .beq .zero .zero ⟨"a", 21⟩), ⟨3, 22⟩⟩,
   ⟨[], .instr (.branch .bne ⟨8⟩ .zero ⟨"b", 39⟩), ⟨23, 40⟩⟩,
   ⟨[], .instr (.branch .beq ⟨8⟩ .zero ⟨"c", 57⟩), ⟨41, 58⟩⟩,
   ⟨[⟨"b", 59⟩], .empty, ⟨61, 61⟩⟩]

theorem branches_lead_to_labels_branching :
    ∃ p, assemble branching none = .ok p ∧ p.size < 2 ^ 25 ∧
      (∃ slot i offset, p.slots[0]? = some slot ∧ slot.words = [i] ∧
        MachineInstr.decode i.encode = .ok (.branch .beq .zero .zero offset) ∧
        (MachineInstr.branch .beq .zero .zero offset).branchTarget? 0 = some 0 ∧
        ∃ after, ((Machine.new {}).load p).step = .ran after ∧ after.pc = 0) ∧
      (∃ slot i offset, p.slots[1]? = some slot ∧ slot.words = [i] ∧
        MachineInstr.decode i.encode = .ok (.branch .bne ⟨8⟩ .zero offset) ∧
        (MachineInstr.branch .bne ⟨8⟩ .zero offset).branchTarget? 4 = some 12) ∧
      ∃ slot i, p.slots[2]? = some slot ∧ slot.words = [i] ∧
        MachineInstr.decode i.encode = .ok (.branch .beq ⟨8⟩ .zero 0) := by
  have assembled : assemble branching none = .ok _ := rfl
  refine ⟨_, assembled, by decide, ?_, ?_, ?_⟩
  · obtain ⟨i, offset, words, decoded, leads, -, -⟩ :=
      branches_lead_to_labels (by decide) assembled (n := 0) rfl rfl
    obtain ⟨target, steps⟩ := leads 0 rfl
    exact ⟨_, i, offset, rfl, words, decoded, target, steps _ ⟨rfl, rfl, rfl⟩ rfl⟩
  · obtain ⟨i, offset, words, decoded, leads, -, -⟩ :=
      branches_lead_to_labels (by decide) assembled (n := 1) rfl rfl
    exact ⟨_, i, offset, rfl, words, decoded, (leads 12 rfl).1⟩
  · obtain ⟨i, offset, words, decoded, -, -, missing⟩ :=
      branches_lead_to_labels (by decide) assembled (n := 2) rfl rfl
    rw [missing rfl] at decoded
    exact ⟨_, i, rfl, words, decoded⟩

/-- The word of a jump is that jump, and a step goes to the address of its label. The word has
only 26 bits of this address, and leads there just if the label is in the text segment. -/
theorem jumps_lead_to_text_labels (few : p.size < 2 ^ 25) (h : assemble statements source = .ok p)
    {n : Nat} {slot : Slot} (hn : p.slots[n]? = some slot) {op : JumpOp} {label : Label}
    (hi : slot.instr = .jump op label) {symbol : Symbol}
    (found : p.symbols.find? label.name = some symbol) :
    ∃ i target, slot.words = [i] ∧ MachineInstr.decode i.encode = .ok (.jump op target) ∧
      (∀ m : Machine, m.At p n → ∃ after, m.step = .ran after ∧ after.pc = symbol.address) ∧
      ∃ there, (MachineInstr.jump op target).jumpTarget? = some there ∧
        there.toNat = 4 * (symbol.address.toNat / 4 % 2 ^ 26) ∧
        (there = symbol.address ↔ symbol.segment = .text) := by
  have known : p.symbols.address? label.name = some symbol.address :=
    SymbolTable.address?_eq_some.2 ⟨symbol, found, rfl⟩
  have inside := lt_size_of_getElem? hn
  have expanded := expand_of_assemble h hn
  rw [hi, Instr.expand, Except.ok.injEq] at expanded
  refine ⟨.jump op (Instr.jumpField label p.symbols), Instr.jumpField label p.symbols,
    expanded.symm, MachineInstr.decode_encode _, ?_, _, rfl,
    Instr.toNat_jumpAddress_jumpField known, ?_⟩
  · intro m here
    rw [← here.program] at known
    exact Machine.step_of_transfer here.running (here.fetched (by omega) hn) known (.inl ⟨op, hi⟩)
  · rw [Instr.jumpAddress_jumpField_eq_iff known]
    rcases symbol_cases h found with ⟨text, k, le, here⟩ | ⟨data, far⟩
    · have place : symbol.address.toNat = 4 * k := by rw [here, toNat_slotAddress (by omega)]
      refine iff_of_true ⟨?_, ?_⟩ text
      · rw [place]
        exact Nat.dvd_mul_right 4 k
      · omega
    · have least : 0x10010000 ≤ symbol.address.toNat := far
      refine iff_of_false (fun fits => ?_) (by rw [data]; decide)
      omega

/-- A linking jump behind the last instruction and a jump into the data segment. -/
def jumping : List Statement :=
  [⟨[], .instr (.jump .jal ⟨"end", 4⟩), ⟨0, 7⟩⟩,
   ⟨[], .instr (.jump .j ⟨"x", 10⟩), ⟨8, 11⟩⟩,
   ⟨[⟨"end", 12⟩], .directive .data, ⟨17, 22⟩⟩,
   ⟨[⟨"x", 23⟩], .directive (.word [1]), ⟨26, 33⟩⟩]

theorem jumps_lead_to_text_labels_jumping :
    ∃ p, assemble jumping none = .ok p ∧ p.size < 2 ^ 25 ∧
      (∃ slot i target there, p.slots[0]? = some slot ∧ slot.words = [i] ∧
        MachineInstr.decode i.encode = .ok (.jump .jal target) ∧
        (MachineInstr.jump .jal target).jumpTarget? = some there ∧ there = 8 ∧
        ∃ after, ((Machine.new {}).load p).step = .ran after ∧ after.pc = there) ∧
      ∃ slot i target there, p.slots[1]? = some slot ∧ slot.words = [i] ∧
        MachineInstr.decode i.encode = .ok (.jump .j target) ∧
        (MachineInstr.jump .j target).jumpTarget? = some there ∧ there ≠ 0x10010000 := by
  have assembled : assemble jumping none = .ok _ := rfl
  refine ⟨_, assembled, by decide, ?_, ?_⟩
  · obtain ⟨i, target, words, decoded, steps, there, jumps, -, right⟩ :=
      jumps_lead_to_text_labels (by decide) assembled (n := 0) rfl rfl rfl
    have there_eq : there = 8 := right.2 rfl
    obtain ⟨after, ran, goes⟩ := steps ((Machine.new {}).load _) ⟨rfl, rfl, rfl⟩
    exact ⟨_, i, target, there, rfl, words, decoded, jumps, there_eq, after, ran,
      goes.trans there_eq.symm⟩
  · obtain ⟨i, target, words, decoded, -, there, jumps, -, right⟩ :=
      jumps_lead_to_text_labels (by decide) assembled (n := 1) rfl rfl rfl
    have data : ¬Segment.data = Segment.text := by decide
    exact ⟨_, i, target, there, rfl, words, decoded, jumps, fun same => data (right.1 same)⟩

def intoData : List Statement :=
  [⟨[], .directive .data, ⟨0, 5⟩⟩,
   ⟨[⟨"x", 6⟩], .directive (.word [1]), ⟨9, 16⟩⟩,
   ⟨[], .directive .text, ⟨17, 22⟩⟩,
   ⟨[], .instr (.jump .j ⟨"x", 25⟩), ⟨23, 26⟩⟩]

/-- Its step goes to the data, and the word of its jump leads elsewhere. -/
theorem jump_into_data_leads_elsewhere :
    ∃ p slot i after, assemble intoData none = .ok p ∧ p.slots[0]? = some slot ∧
      slot.instr = .jump .j ⟨"x", 25⟩ ∧ p.symbols.address? "x" = some 0x10010000 ∧
      slot.words = [i] ∧ MachineInstr.decode i.encode = .ok (.jump .j 0x4000) ∧
      (MachineInstr.jump .j 0x4000).jumpTarget? = some 0x10000 ∧
      ((Machine.new {}).load p).step = .ran after ∧ after.pc = 0x10010000 :=
  ⟨_, _, _, _, rfl, rfl, rfl, rfl, rfl, rfl, rfl, rfl, rfl⟩

end Program

end Mips
