import Mathlib.Data.List.TakeWhile
import Mips.Machine
import Mips.Proofs.MemoryBlocks
import Mips.Proofs.MemoryText
import Mips.Proofs.Positions

/-!
# The data segment

Each data directive has cells of its own, from the address on that the lengths of the directives
before it give. As the first pass lets no data reach beyond the last address, the cells ascend, and
they are all that the second pass writes. A machine starts with just these cells.
-/
namespace Mips

/-- The cells of a text: a character each, and a zero cell. -/
def textCells (start : Word) (text : String) : List (Word × Word) :=
  block start 1 ((text.toList ++ ['\x00']).map fun c => BitVec.ofNat 32 c.toNat)

def Statement.cells (start : Word) (s : Statement) : List (Word × Word) :=
  match s.nucleus with
  | .directive (.word values) => block start 4 values
  | .directive (.asciiz text) => textCells start text
  | .directive .data | .directive .text | .directive (.globl _) | .instr _ | .empty => []

/-- The cells of all data, in source order. -/
def Statement.image (statements : List Statement) : List (Word × Word) :=
  statements.zipIdx.flatMap fun (s, n) => s.cells (dataAddress (statements.take n))

namespace Statement

variable {before statements : List Statement} {s : Statement}

theorem image_concat : image (before ++ [s]) = image before ++ s.cells (dataAddress before) := by
  unfold image
  rw [List.zipIdx_append, List.flatMap_append]
  congr 1
  · apply List.flatMap_congr
    rintro ⟨t, n⟩ inside
    have early := (List.mem_zipIdx inside).2.1
    dsimp only
    rw [List.take_append_of_le_length (by omega)]
  · simp

theorem cells_subset_image (inside : before ++ [s] <+: statements) :
    s.cells (dataAddress before) ⊆ image statements := by
  intro cell h
  obtain ⟨after, rfl⟩ := inside
  refine List.mem_flatMap.2 ⟨(s, before.length), ?_, ?_⟩
  · simp [List.mk_mem_zipIdx_iff_getElem?]
  · simpa using h

theorem ascending_cells {start : Word} (room : start.toNat + s.dataLength < 2 ^ 32) :
    Ascending start.toNat (start.toNat + s.dataLength) (s.cells start) := by
  unfold cells dataLength at *
  cases hn : s.nucleus with
  | instr i => exact .nil
  | empty => exact .nil
  | directive d =>
    rw [hn] at room
    cases d with
    | data | text | globl label => exact .nil
    | word values => exact .block (by decide) room
    | asciiz text =>
      let codes := (text.toList ++ ['\x00']).map fun c => BitVec.ofNat 32 c.toNat
      have length : 1 * codes.length = text.length + 1 := by
        simp only [codes, Nat.one_mul, List.length_map, List.length_append, String.length_toList,
          List.length_singleton]
      change Ascending start.toNat (start.toNat + (text.length + 1)) (block start 1 codes)
      rw [← length]
      exact .block Nat.one_pos (length ▸ room)

theorem ascending_image (room : dataBase.toNat + dataBytes statements < 2 ^ 32) :
    Ascending dataBase.toNat (dataBase.toNat + dataBytes statements) (image statements) := by
  induction statements using List.reverseRecOn with
  | nil => exact .nil
  | append_singleton before s ih =>
    rw [dataBytes_concat, ← Nat.add_assoc] at room ⊢
    have here : (dataAddress before).toNat = dataBase.toNat + dataBytes before :=
      toNat_dataAddress (by omega)
    have last : Ascending (dataBase.toNat + dataBytes before)
        (dataBase.toNat + dataBytes before + s.dataLength) (s.cells (dataAddress before)) := by
      rw [← here]
      exact ascending_cells (by rwa [here])
    rw [image_concat]
    exact (ih (by omega)).append last (by omega) (by omega)

end Statement

open Statement

namespace Memory

theorem writeChars_fst (m : Memory) (address : Word) (chars : List Char) :
    (m.writeChars address chars).1 =
      m.setAll (block address 1 (chars.map fun c => BitVec.ofNat 32 c.toNat)) := by
  induction chars generalizing m address with
  | nil => rfl
  | cons c rest ih =>
    rw [writeChars, ih, List.map_cons, block_cons]
    rfl

end Memory

namespace Program.Layout

variable {l l' : Layout} {symbols : SymbolTable} {before statements : List Statement}
  {s : Statement}

theorem data_addWords (l : Layout) (values : List Word) :
    (l.addWords values).data = l.data.setAll (block l.dataPc 4 values) := by
  induction values generalizing l with
  | nil => rfl
  | cons value rest ih =>
    rw [addWords, ih, block_cons]
    rfl

/-- The second pass writes the cells of a statement and moves behind them. -/
theorem data_addStatement (h : l.addStatement symbols s = .ok l') :
    l'.data = l.data.setAll (s.cells l.dataPc) ∧
      l'.dataPc = l.dataPc + BitVec.ofNat 32 s.dataLength := by
  unfold addStatement at h
  unfold cells dataLength
  cases hn : s.nucleus with
  | instr i =>
    rw [hn] at h
    obtain ⟨_, words, _, rfl⟩ := addInstr_eq_ok.1 h
    exact ⟨rfl, (BitVec.add_zero _).symm⟩
  | empty =>
    rw [hn] at h
    cases h
    exact ⟨rfl, (BitVec.add_zero _).symm⟩
  | directive d =>
    rw [hn] at h
    cases d with
    | data | text | globl label =>
      cases h
      exact ⟨rfl, (BitVec.add_zero _).symm⟩
    | word values =>
      cases h
      exact ⟨data_addWords l values, dataPc_addWords l values⟩
    | asciiz text =>
      cases h
      exact ⟨l.data.writeChars_fst .., dataPc_addText l text⟩

theorem data_foldlM (h : statements.foldlM (addStatement symbols) start = .ok l) :
    l.data = Memory.empty.setAll (image statements) ∧ l.dataPc = dataAddress statements := by
  refine foldlM_establishes (I := fun done l =>
    l.data = Memory.empty.setAll (image done) ∧ l.dataPc = dataAddress done) ?_ h ⟨rfl, rfl⟩
  rintro before s l l' added ⟨data, dataPc⟩
  obtain ⟨written, moved⟩ := data_addStatement added
  constructor
  · rw [written, data, dataPc, image_concat, Memory.setAll_append]
  · rw [moved, dataPc, dataAddress, dataAddress, dataBytes_concat, BitVec.ofNat_add,
      BitVec.add_assoc]

end Program.Layout

theorem mem_textCells {start : Word} {text : String} {n : Nat} {c : Char}
    (h : (text.toList ++ ['\x00'])[n]? = some c) :
    (start + BitVec.ofNat 32 n, BitVec.ofNat 32 c.toNat) ∈ textCells start text := by
  have code : ((text.toList ++ ['\x00']).map fun c => BitVec.ofNat 32 c.toNat)[n]? =
      some (BitVec.ofNat 32 c.toNat) := by
    rw [List.getElem?_map, h, Option.map_some]
  have address : start + BitVec.ofNat 32 n = start + BitVec.ofNat 32 (1 * n) := by rw [Nat.one_mul]
  rw [address]
  exact mem_block code

theorem Machine.memory_load (m : Machine) (p : Program) : (m.load p).memory = p.data :=
  p.data.copyBlock_empty

namespace Program

variable {statements : List Statement} {source : Option String} {p : Program}

theorem room_of_assemble (h : assemble statements source = .ok p) :
    dataBase.toNat + dataBytes statements < 2 ^ 32 := by
  obtain ⟨_, _, first, _⟩ := assemble_eq_ok.1 h
  exact (SymbolTable.tracks_of_foldlM first).room

theorem toList_data_of_assemble (h : assemble statements source = .ok p) :
    p.data.toList = image statements := by
  obtain ⟨_, l, _, second, same⟩ := assemble_eq_ok.1 h
  rw [same]
  change l.data.toList = image statements
  rw [(Layout.data_foldlM second).1]
  exact Memory.toList_setAll_empty (ascending_image (room_of_assemble h))

theorem address?_of_data (h : assemble statements source = .ok p) {before : List Statement}
    {s : Statement} (inside : before ++ [s] <+: statements) (data : s.home? = some .data)
    {label : Label} (hl : label ∈ s.labels) :
    p.symbols.address? label.name = some (dataAddress before) := by
  obtain ⟨_, _, first, _⟩ := assemble_eq_ok.1 h
  have allowed := SymbolTable.foldlM_addStatement_succeeds_iff.1 ⟨_, first⟩ before s inside
  refine (address?_of_assemble h).2 ⟨before, s, inside, ⟨label, hl, rfl⟩, ?_⟩
  rw [addressAfter, allowed.home _ data]

/-- The data of a program are the cells of its directives, all at different addresses. Each
directive has its cells from the address on that its labels stand for; a machine that loads the
program finds them there, and reads a text up to the first zero character. -/
theorem assemble_lays_out_data (h : assemble statements source = .ok p) :
    dataBase.toNat + dataBytes statements < 2 ^ 32 ∧
      p.data.toList = image statements ∧
      (image statements).Pairwise (fun a b => a.1 < b.1) ∧
      ∀ (before after : List Statement) (s : Statement), statements = before ++ s :: after →
        let start := dataAddress before
        (s.home? = some .data → ∀ label ∈ s.labels,
          p.symbols.address? label.name = some start) ∧
        (∀ values, s.nucleus = .directive (.word values) →
          ∀ (n : Nat) (value : Word), values[n]? = some value →
            let address := start + BitVec.ofNat 32 (4 * n)
            (address, value) ∈ p.data.toList ∧
              ∀ m : Machine, (m.load p).memory.get address = value) ∧
        (∀ text, s.nucleus = .directive (.asciiz text) →
          (∀ (n : Nat) (c : Char), (text.toList ++ ['\x00'])[n]? = some c →
            (start + BitVec.ofNat 32 n, BitVec.ofNat 32 c.toNat) ∈ p.data.toList) ∧
          ∀ m : Machine, (m.load p).memory.readText start =
            String.ofList (text.toList.takeWhile (· ≠ '\x00'))) := by
  have room := room_of_assemble h
  have data := toList_data_of_assemble h
  refine ⟨room, data, (ascending_image room).ordered, ?_⟩
  intro before after s cut start
  have inside : before ++ [s] <+: statements := ⟨after, by rw [cut, List.append_assoc]; rfl⟩
  have own : s.cells start ⊆ p.data.toList := by
    rw [data]
    exact cells_subset_image inside
  refine ⟨fun here label hl => address?_of_data h inside here hl, ?_, ?_⟩
  · intro values hs n value hn address
    have cell : (address, value) ∈ p.data.toList := by
      apply own
      rw [cells, hs]
      exact mem_block hn
    refine ⟨cell, fun m => ?_⟩
    rw [m.memory_load]
    exact Memory.get_of_mem_toList cell
  · intro text hs
    have cell {n : Nat} {c : Char} (hn : (text.toList ++ ['\x00'])[n]? = some c) :
        (start + BitVec.ofNat 32 n, BitVec.ofNat 32 c.toNat) ∈ p.data.toList := by
      apply own
      rw [cells, hs]
      exact mem_textCells hn
    refine ⟨fun n c hn => cell hn, fun m => ?_⟩
    rw [m.memory_load]
    apply Memory.readText_of_cells
    · intro c hc
      simpa using List.mem_takeWhile_imp hc
    · intro n c hn
      obtain ⟨within, rfl⟩ := List.getElem?_eq_some_iff.1 hn
      have shown := takeWhile_concat_isPrefix text.toList '\x00'
      exact Memory.get_of_mem_toList (cell (List.prefix_iff_getElem?.1 shown n within))

/-- Words and texts in turns, around an instruction, with characters that take several bytes
elsewhere and one that ends a text early. -/
def scattered : List Statement :=
  [⟨[], .directive .data, ⟨0, 5⟩⟩,
   ⟨[⟨"s", 6⟩], .directive (.asciiz "hé€\x00!"), ⟨9, 26⟩⟩,
   ⟨[⟨"w", 27⟩, ⟨"v", 30⟩], .directive (.word [7, -1]), ⟨33, 45⟩⟩,
   ⟨[], .directive .text, ⟨46, 51⟩⟩,
   ⟨[⟨"main", 52⟩], .instr .syscall, ⟨58, 65⟩⟩,
   ⟨[], .directive .data, ⟨66, 71⟩⟩,
   ⟨[⟨"t", 72⟩], .directive (.asciiz "ok"), ⟨75, 87⟩⟩]

theorem assemble_lays_out_data_scattered :
    ∃ p, assemble scattered none = .ok p ∧
      p.symbols.address? "v" = some 0x10010006 ∧
      ∀ m : Machine, (m.load p).memory.get 0x1001000A = -1 ∧
        (m.load p).memory.readText 0x10010000 = "hé€" ∧
        (m.load p).memory.readText 0x1001000E = "ok" := by
  have assembled : assemble scattered none = .ok _ := rfl
  obtain ⟨_, _, _, laid⟩ := assemble_lays_out_data assembled
  obtain ⟨labels, words, _⟩ := laid (scattered.take 2) (scattered.drop 3) _ rfl
  obtain ⟨_, _, early⟩ := laid (scattered.take 1) (scattered.drop 2) _ rfl
  obtain ⟨_, _, late⟩ := laid (scattered.take 6) (scattered.drop 7) _ rfl
  refine ⟨_, assembled, labels rfl ⟨"v", 30⟩ (by decide), fun m => ⟨?_, ?_, ?_⟩⟩
  · exact (words _ rfl 1 _ rfl).2 m
  · exact (early _ rfl).2 m
  · exact (late _ rfl).2 m

end Program

end Mips
