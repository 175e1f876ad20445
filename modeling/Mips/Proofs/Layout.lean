import Mathlib.Algebra.Group.Nat.Defs
import Mips.Program
import Mips.Proofs.Folds

/-!
# Where instructions lie

Assembling goes over the statements twice. The first pass gives labels their addresses, with a
cursor that knows the segment; the second one fills slots and data, with two counters and no
segment. The invariant is that the cursor and the counters stay in step. An instruction that was
laid out hence lies at the address of the labels before it, which is four times the number of
instructions before it.
-/
namespace Mips

def Statement.instr? (s : Statement) : Option (Instr × Span) :=
  match s.nucleus with
  | .instr i => some (i, s.span)
  | .directive _ | .empty => none

theorem Statement.instr?_eq_some {s : Statement} {i : Instr} {span : Span} :
    s.instr? = some (i, span) ↔ s.nucleus = .instr i ∧ s.span = span := by
  unfold instr?
  cases s.nucleus <;> simp

def Statement.instrs (statements : List Statement) : List (Instr × Span) :=
  statements.filterMap Statement.instr?

def Slot.source (slot : Slot) : Instr × Span :=
  (slot.instr, slot.span)

namespace SymbolTable

variable {t t' : SymbolTable} {c c' : Cursor} {name : String} {symbol : Symbol}

theorem find?_define_of_find? {label : Label} (h : t.define c label = .ok t')
    (found : t.find? name = some symbol) : t'.find? name = some symbol := by
  unfold define at h
  split at h
  · split at h
    · cases h
      exact found
    · cases h
  next missing =>
    cases h
    have other : label.name ≠ name := by
      rintro rfl
      rw [missing] at found
      cases found
    simpa only [find?, Std.ExtTreeMap.getElem?_insert, Std.compare_eq_iff_eq, other, if_false]
      using found

theorem address?_define_self {label : Label} (h : t.define c label = .ok t') :
    t'.address? label.name = some c.address := by
  unfold define at h
  split at h
  next found =>
    split at h
    next same =>
      cases h
      rw [address?, found, Option.map_some, same]
    · cases h
  · cases h
    simp only [address?, find?, Std.ExtTreeMap.getElem?_insert_self, Option.map_some]

theorem address?_eq_some {address : Word} :
    t.address? name = some address ↔
      ∃ symbol, t.find? name = some symbol ∧ symbol.address = address :=
  Option.map_eq_some_iff

theorem find?_foldlM_define_of_find? {labels : List Label}
    (h : labels.foldlM (fun t label => t.define c label) t = .ok t')
    (found : t.find? name = some symbol) : t'.find? name = some symbol :=
  foldlM_keeps (fun t => t.find? name = some symbol) find?_define_of_find? h found

theorem address?_of_mem_labels {labels : List Label}
    (h : labels.foldlM (fun t label => t.define c label) t = .ok t') {label : Label}
    (hl : label ∈ labels) : t'.address? label.name = some c.address := by
  induction labels generalizing t with
  | nil => cases hl
  | cons first rest ih =>
    obtain ⟨m, defined, others⟩ := foldlM_cons_eq_ok.1 h
    rcases List.mem_cons.1 hl with rfl | hl
    · obtain ⟨symbol, found, here⟩ := address?_eq_some.1 (address?_define_self defined)
      exact address?_eq_some.2 ⟨symbol, find?_foldlM_define_of_find? others found, here⟩
    · exact ih others hl

theorem addStatement_eq_ok {s : Statement} :
    addStatement (t, c) s = .ok (t', c') ↔
      s.labels.foldlM (fun t label => t.define c label) t = .ok t' ∧ c.advance s = .ok c' := by
  simp only [addStatement, bind_eq_ok, pure, Except.pure, Except.ok.injEq, Prod.mk.injEq]
  constructor
  · rintro ⟨_, defined, _, moved, rfl, rfl⟩
    exact ⟨defined, moved⟩
  · rintro ⟨defined, moved⟩
    exact ⟨t', defined, c', moved, rfl, rfl⟩

/-- A definition outlives all statements after it. -/
theorem find?_foldlM_of_find? {statements : List Statement} {state state' : SymbolTable × Cursor}
    (h : statements.foldlM addStatement state = .ok state')
    (found : state.1.find? name = some symbol) : state'.1.find? name = some symbol := by
  refine foldlM_keeps (fun state => state.1.find? name = some symbol) ?_ h found
  intro s x y added found
  exact find?_foldlM_define_of_find? (addStatement_eq_ok.1 added).1 found

theorem ofStatements_eq_ok {statements : List Statement} :
    ofStatements statements = .ok t ↔
      ∃ c, statements.foldlM addStatement (empty, .start) = .ok (t, c) := by
  simp only [ofStatements, bind_eq_ok, pure, Except.pure, Except.ok.injEq, Prod.exists]
  constructor
  · rintro ⟨_, c, passed, rfl⟩
    exact ⟨c, passed⟩
  · rintro ⟨c, passed⟩
    exact ⟨t, c, passed, rfl⟩

end SymbolTable

namespace Program.Layout

variable {l l' : Layout} {symbols : SymbolTable}

@[simp] theorem slots_addWords (l : Layout) (values : List Word) :
    (l.addWords values).slots = l.slots := by
  induction values generalizing l with
  | nil => rfl
  | cons value rest ih => rw [addWords, ih]

@[simp] theorem pc_addWords (l : Layout) (values : List Word) : (l.addWords values).pc = l.pc := by
  induction values generalizing l with
  | nil => rfl
  | cons value rest ih => rw [addWords, ih]

theorem dataPc_addWords (l : Layout) (values : List Word) :
    (l.addWords values).dataPc = l.dataPc + BitVec.ofNat 32 (4 * values.length) := by
  induction values generalizing l with
  | nil => simp [addWords]
  | cons value rest ih =>
    rw [addWords, ih, List.length_cons, Nat.mul_add, Nat.mul_one, BitVec.ofNat_add,
      BitVec.add_assoc, BitVec.add_comm (BitVec.ofNat 32 (4 * rest.length))]
    rfl

theorem dataPc_addText (l : Layout) (text : String) :
    (l.addText text).dataPc = l.dataPc + BitVec.ofNat 32 (text.length + 1) := by
  simp only [addText, Memory.writeText, Memory.writeChars_snd, List.length_append,
    String.length_toList, List.length_singleton]

theorem addInstr_eq_ok {i : Instr} {span : Span} :
    l.addInstr symbols i span = .ok l' ↔
      l.pc = slotAddress l.slots.size ∧ ∃ words, i.expand l.pc symbols = .ok words ∧
        l' = { l with slots := l.slots.push ⟨i, words, span⟩, pc := l.pc + 4 } := by
  unfold addInstr
  by_cases here : l.pc = slotAddress l.slots.size
  · rw [if_pos here]
    cases expanded : i.expand l.pc symbols with
    | error e => simp
    | ok words => simp [here, eq_comm]
  · rw [if_neg here]
    simp only [here, false_and, iff_false]
    split <;> simp

/-- The slots are made from the instructions, one from each and in source order. -/
theorem source_addStatement {s : Statement} (h : l.addStatement symbols s = .ok l') :
    l'.slots.toList.map Slot.source = l.slots.toList.map Slot.source ++ s.instr?.toList := by
  unfold addStatement at h
  unfold Statement.instr?
  split at h
  next i hn =>
    obtain ⟨_, words, _, rfl⟩ := addInstr_eq_ok.1 h
    simp [hn, Slot.source]
  next hn => cases h; simp [hn]
  next hn => cases h; simp [hn, addText]
  all_goals
    next hn => cases h; simp [hn]

theorem source_foldlM {statements : List Statement}
    (h : statements.foldlM (addStatement symbols) l = .ok l') :
    l'.slots.toList.map Slot.source =
      l.slots.toList.map Slot.source ++ Statement.instrs statements := by
  induction statements generalizing l with
  | nil =>
    cases h
    simp [Statement.instrs]
  | cons s rest ih =>
    obtain ⟨m, first, others⟩ := foldlM_cons_eq_ok.1 h
    rw [ih others, source_addStatement first, List.append_assoc]
    congr 1
    cases hs : s.instr? with
    | none => simp [Statement.instrs, hs]
    | some i => simp [Statement.instrs, hs]

/-- Every slot holds the machine code of its instruction at its address. -/
def Expanded (symbols : SymbolTable) (l : Layout) : Prop :=
  ∀ (n : Nat) (slot : Slot), l.slots[n]? = some slot →
    slot.instr.expand (slotAddress n) symbols = .ok slot.words

theorem expanded_start : Expanded symbols start := by
  intro n slot hn
  simp [start] at hn

theorem expanded_addStatement {s : Statement} (h : l.addStatement symbols s = .ok l')
    (hl : Expanded symbols l) : Expanded symbols l' := by
  unfold addStatement at h
  split at h
  next i _ =>
    obtain ⟨here, words, expanded, rfl⟩ := addInstr_eq_ok.1 h
    intro n slot hn
    rw [Array.getElem?_push] at hn
    split at hn
    next last =>
      cases hn
      rw [last, ← here]
      exact expanded
    · exact hl n slot hn
  next => cases h; simpa [Expanded] using hl
  next => cases h; exact hl
  all_goals
    cases h
    exact hl

end Program.Layout

/-- The cursor of the first pass and the counters of the second one stand at the same addresses,
whichever segment the cursor is in. -/
structure InStep (c : SymbolTable.Cursor) (l : Program.Layout) : Prop where
  pc : c.pc = l.pc
  data : BitVec.ofNat 32 c.data = l.dataPc

namespace InStep

open SymbolTable (Cursor)

variable {c c' : Cursor} {l l' : Program.Layout} {symbols : SymbolTable}

theorem start : InStep .start .start :=
  ⟨rfl, rfl⟩

theorem layOut {bytes : Nat} {span : Span} (h : InStep c l)
    (moved : c.layOut bytes span = .ok c') (pc : l'.pc = l.pc)
    (data : l'.dataPc = l.dataPc + BitVec.ofNat 32 bytes) : InStep c' l' := by
  unfold Cursor.layOut at moved
  split at moved
  · cases moved
  · split at moved
    · cases moved
      exact ⟨h.pc.trans pc.symm, by rw [data, ← h.data, BitVec.ofNat_add]⟩
    · cases moved

theorem advance {s : Statement} (h : InStep c l) (first : c.advance s = .ok c')
    (second : l.addStatement symbols s = .ok l') : InStep c' l' := by
  unfold Cursor.advance at first
  unfold Program.Layout.addStatement at second
  cases hn : s.nucleus with
  | instr i =>
    rw [hn] at first second
    obtain ⟨_, words, _, rfl⟩ := Program.Layout.addInstr_eq_ok.1 second
    cases hs : c.segment with
    | text =>
      simp only [hs, Except.ok.injEq] at first
      subst first
      exact ⟨congrArg (· + 4) h.pc, h.data⟩
    | data => simp [hs] at first
  | empty =>
    rw [hn] at first second
    cases first
    cases second
    exact h
  | directive d =>
    rw [hn] at first second
    cases d with
    | data | globl label =>
      cases first
      cases second
      exact ⟨h.pc, h.data⟩
    | text =>
      cases first
      cases second
      exact ⟨rfl, h.data⟩
    | word values =>
      cases second
      exact h.layOut first (Program.Layout.pc_addWords l values)
        (Program.Layout.dataPc_addWords l values)
    | asciiz text =>
      cases second
      exact h.layOut first rfl (Program.Layout.dataPc_addText l text)

/-- After any statements that both passes went over, they are in step. -/
theorem foldlM {statements : List Statement} {t : SymbolTable}
    (first : statements.foldlM SymbolTable.addStatement (.empty, .start) = .ok (t, c))
    (second : statements.foldlM (Program.Layout.addStatement symbols) .start = .ok l) :
    InStep c l := by
  refine foldlM_keeps₂ (fun state layout => InStep state.2 layout) ?_ first second start
  intro s x y x' y' added added' h
  exact h.advance (SymbolTable.addStatement_eq_ok.1 added).2 added'

end InStep

namespace Program

open Layout (slotAddress)

variable {statements : List Statement} {source : Option String} {p : Program}

theorem assemble_eq_ok :
    assemble statements source = .ok p ↔
      ∃ c l, statements.foldlM SymbolTable.addStatement (.empty, .start) = .ok (p.symbols, c) ∧
        statements.foldlM (Layout.addStatement p.symbols) .start = .ok l ∧
        p = ⟨l.slots, l.data, p.symbols, source⟩ := by
  simp only [assemble, bind_eq_ok, SymbolTable.ofStatements_eq_ok, pure, Except.pure,
    Except.ok.injEq]
  constructor
  · rintro ⟨symbols, ⟨c, first⟩, l, second, rfl⟩
    exact ⟨c, l, first, second, rfl⟩
  · rintro ⟨c, l, first, second, same⟩
    exact ⟨p.symbols, ⟨c, first⟩, l, second, same.symm⟩

theorem slotAddress_eq (n : Nat) : slotAddress n = BitVec.ofNat 32 (4 * n) := by
  rw [slotAddress, BitVec.ofNat_mul]
  exact BitVec.zero_add _

theorem toNat_slotAddress {n : Nat} (hn : n < 2 ^ 30) :
    (BitVec.ofNat 32 (4 * n)).toNat = 4 * n := by
  rw [BitVec.toNat_ofNat, Nat.mod_eq_of_lt (by omega)]

/-- As long as addresses do not wrap, the slots lie four bytes apart. -/
theorem slotAt?_ofNat {n : Nat} (hn : n < 2 ^ 30) :
    p.slotAt? (BitVec.ofNat 32 (4 * n)) = p.slots[n]? := by
  have offset : (BitVec.ofNat 32 (4 * n) - textBase).toNat = 4 * n := by
    change (BitVec.ofNat 32 (4 * n) - 0#32).toNat = 4 * n
    rw [BitVec.sub_zero, toNat_slotAddress hn]
  have aligned : 4 * n % 4 = 0 := by omega
  have index : 4 * n / 4 = n := by omega
  simp only [slotAt?, indexOf?, offset, aligned, index, true_and]
  by_cases inside : n < p.size
  · rw [if_pos inside, Option.bind_some]
  · rw [if_neg inside, Option.bind_none, eq_comm, Array.getElem?_eq_none_iff]
    exact Nat.le_of_not_lt inside

theorem source_slots_of_assemble (h : assemble statements source = .ok p) :
    p.slots.toList.map Slot.source = Statement.instrs statements := by
  obtain ⟨c, l, _, second, same⟩ := assemble_eq_ok.1 h
  rw [same]
  exact Layout.source_foldlM second

theorem expand_of_assemble (h : assemble statements source = .ok p) {n : Nat} {slot : Slot}
    (hn : p.slots[n]? = some slot) :
    slot.instr.expand (slotAddress n) p.symbols = .ok slot.words := by
  obtain ⟨c, l, _, second, same⟩ := assemble_eq_ok.1 h
  rw [same] at hn
  exact foldlM_keeps (Layout.Expanded p.symbols) Layout.expanded_addStatement second
    Layout.expanded_start n slot hn

/-- An instruction that both passes went over was met by them at the same address, four times the
number of instructions before it, and in the text segment. -/
theorem cursor_at_instr (h : assemble statements source = .ok p) {before after : List Statement}
    {s : Statement} {i : Instr} (cut : statements = before ++ s :: after)
    (hs : s.nucleus = .instr i) :
    ∃ (t t' : SymbolTable) (c : SymbolTable.Cursor),
      s.labels.foldlM (fun t label => t.define c label) t = .ok t' ∧
      (∀ name symbol, t'.find? name = some symbol → p.symbols.find? name = some symbol) ∧
      c.address = BitVec.ofNat 32 (4 * (Statement.instrs before).length) := by
  obtain ⟨_, l, first, second, _⟩ := assemble_eq_ok.1 h
  rw [cut] at first second
  obtain ⟨⟨t, c⟩, beforeFirst, first⟩ := foldlM_append_eq_ok.1 first
  obtain ⟨⟨t', c'⟩, atFirst, afterFirst⟩ := foldlM_cons_eq_ok.1 first
  obtain ⟨m, beforeSecond, second⟩ := foldlM_append_eq_ok.1 second
  obtain ⟨m', atSecond, _⟩ := foldlM_cons_eq_ok.1 second
  obtain ⟨defined, moved⟩ := SymbolTable.addStatement_eq_ok.1 atFirst
  refine ⟨t, t', c, defined, fun name symbol found =>
    SymbolTable.find?_foldlM_of_find? afterFirst found, ?_⟩
  have text : c.segment = .text := by
    unfold SymbolTable.Cursor.advance at moved
    rw [hs] at moved
    cases segment : c.segment with
    | text => rfl
    | data => simp [segment] at moved
  have here : m.pc = slotAddress m.slots.size := by
    unfold Layout.addStatement at atSecond
    rw [hs] at atSecond
    exact (Layout.addInstr_eq_ok.1 atSecond).1
  have size : m.slots.size = (Statement.instrs before).length := by
    simpa [Layout.start] using congrArg List.length (Layout.source_foldlM beforeSecond)
  calc c.address = c.pc := by rw [SymbolTable.Cursor.address, text]
    _ = m.pc := (InStep.foldlM beforeFirst beforeSecond).pc
    _ = BitVec.ofNat 32 (4 * (Statement.instrs before).length) := by
      rw [here, slotAddress_eq, size]

/-- The slots are the instructions in source order. Each of them is found, with its place in the
source and its machine code, at four times its number, and there its labels point. -/
theorem assemble_places_instrs (few : (Statement.instrs statements).length < 2 ^ 30)
    (h : assemble statements source = .ok p) :
    p.slots.toList.map Slot.source = Statement.instrs statements ∧
      ∀ (before after : List Statement) (s : Statement) (i : Instr),
        statements = before ++ s :: after → s.nucleus = .instr i →
          let address := BitVec.ofNat 32 (4 * (Statement.instrs before).length)
          (∃ words, p.slotAt? address = some ⟨i, words, s.span⟩ ∧
            i.expand address p.symbols = .ok words) ∧
          ∀ label ∈ s.labels, p.symbols.address? label.name = some address := by
  refine ⟨source_slots_of_assemble h, ?_⟩
  intro before after s i cut hs address
  have here : Statement.instrs statements =
      Statement.instrs before ++ (i, s.span) :: Statement.instrs after := by
    simp [cut, Statement.instrs, Statement.instr?, hs]
  constructor
  · have inside : (Statement.instrs before).length < 2 ^ 30 := by
      rw [here, List.length_append] at few
      omega
    have found : (p.slots.toList.map Slot.source)[(Statement.instrs before).length]? =
        some (i, s.span) := by
      rw [source_slots_of_assemble h, here]
      simp
    rw [List.getElem?_map, Array.getElem?_toList, Option.map_eq_some_iff] at found
    obtain ⟨⟨instr, words, span⟩, hn, same⟩ := found
    obtain ⟨rfl, rfl⟩ := Prod.mk.inj same
    have expanded := expand_of_assemble h hn
    rw [slotAddress_eq] at expanded
    exact ⟨words, (slotAt?_ofNat inside).trans hn, expanded⟩
  · intro label hl
    obtain ⟨t, t', c, defined, kept, here⟩ := cursor_at_instr h cut hs
    obtain ⟨symbol, found, at'⟩ :=
      SymbolTable.address?_eq_some.1 (SymbolTable.address?_of_mem_labels defined hl)
    exact SymbolTable.address?_eq_some.2 ⟨symbol, kept _ _ found, at'.trans here⟩

/-- Directives between instructions, a label that is defined twice, a two-word instruction and a
restart at the end. -/
def interleaved : List Statement :=
  [⟨[], .directive .data, ⟨0, 5⟩⟩,
   ⟨[⟨"x", 6⟩], .directive (.word [7, 8]), ⟨9, 19⟩⟩,
   ⟨[], .directive .text, ⟨20, 25⟩⟩,
   ⟨[⟨"a", 26⟩], .directive (.globl ⟨"a", 36⟩), ⟨29, 37⟩⟩,
   ⟨[⟨"a", 38⟩], .instr (.li ⟨8⟩ 0x12345678), ⟨41, 59⟩⟩,
   ⟨[⟨"b", 60⟩, ⟨"b", 63⟩], .instr (.la ⟨9⟩ ⟨"x", 70⟩), ⟨66, 71⟩⟩,
   ⟨[], .directive .text, ⟨72, 77⟩⟩]

theorem assemble_places_instrs_interleaved :
    (Statement.instrs interleaved).length < 2 ^ 30 ∧
      ∃ p, assemble interleaved none = .ok p ∧
        (∃ words, p.slotAt? 4 = some ⟨.la ⟨9⟩ ⟨"x", 70⟩, words, ⟨66, 71⟩⟩) ∧
        p.symbols.address? "b" = some 4 := by
  refine ⟨by decide, _, rfl, ?_⟩
  have assembled : assemble interleaved none = .ok _ := rfl
  obtain ⟨⟨words, found, _⟩, labels⟩ :=
    (assemble_places_instrs (by decide) assembled).2
      (interleaved.take 5) (interleaved.drop 6) _ _ rfl rfl
  exact ⟨⟨words, found⟩, labels ⟨"b", 60⟩ List.mem_cons_self⟩

end Program

end Mips
