import Mathlib.Algebra.GroupWithZero.Nat
import Mips.Proofs.Layout

/-!
# Positions of statements

The address at which a statement lies is told by the statements before it: the segment is that of
the last switch, instructions are counted from the last `.text` on, and data from the first. The
cursor of the first pass stands just there, and the table that the pass builds has the addresses
of all definitions.
-/
namespace Mips

namespace Statement

/-- The segment to which a statement switches. -/
def switch? (s : Statement) : Option Segment :=
  match s.nucleus with
  | .directive .data => some .data
  | .directive .text => some .text
  | .directive (.word _) | .directive (.asciiz _) | .directive (.globl _) | .instr _
  | .empty => none

/-- The segment in which a statement must stand, if it must. -/
def home? (s : Statement) : Option Segment :=
  match s.nucleus with
  | .instr _ => some .text
  | .directive (.word _) | .directive (.asciiz _) => some .data
  | .directive .data | .directive .text | .directive (.globl _) | .empty => none

/-- The number of bytes that a statement lays out in the data segment. -/
def dataLength (s : Statement) : Nat :=
  match s.nucleus with
  | .directive d => d.byteLength
  | .instr _ | .empty => 0

/-- The segment of the last switch. Before all switches it is that of the text. -/
def segmentAfter (before : List Statement) : Segment :=
  (before.filterMap switch?).getLast?.getD .text

def instrsSinceText (before : List Statement) : Nat :=
  (instrs (before.reverse.takeWhile fun s => s.switch? ≠ some .text)).length

def dataBytes (before : List Statement) : Nat :=
  (before.map dataLength).sum

def textAddress (before : List Statement) : Word :=
  textBase + BitVec.ofNat 32 (4 * instrsSinceText before)

def dataAddress (before : List Statement) : Word :=
  dataBase + BitVec.ofNat 32 (dataBytes before)

/-- The address of what follows in the segment that was switched to. -/
def addressAfter (before : List Statement) : Word :=
  match segmentAfter before with
  | .text => textAddress before
  | .data => dataAddress before

/-- One of the statements has a label with the given name, and lies at the given address. -/
def Defines (statements : List Statement) (name : String) (address : Word) : Prop :=
  ∃ before s, before ++ [s] <+: statements ∧ (∃ label ∈ s.labels, label.name = name) ∧
    addressAfter before = address

/-- A statement may follow others: it stands in its segment, with room for its data, and does not
define a label a second time at another address. -/
structure Allowed (before : List Statement) (s : Statement) : Prop where
  labels : ∀ label ∈ s.labels, ∀ address, Defines before label.name address →
    address = addressAfter before
  home : ∀ segment, s.home? = some segment → segmentAfter before = segment
  room : s.home? = some .data → dataBase.toNat + dataBytes (before ++ [s]) < 2 ^ 32

variable (before : List Statement) (s : Statement)

theorem segmentAfter_concat :
    segmentAfter (before ++ [s]) = s.switch?.getD (segmentAfter before) := by
  unfold segmentAfter
  rw [List.filterMap_append, List.getLast?_append]
  cases hs : s.switch? with
  | none => rw [List.filterMap_cons_none hs]; rfl
  | some segment => rw [List.filterMap_cons_some hs]; rfl

theorem instrsSinceText_concat : instrsSinceText (before ++ [s]) =
    if s.switch? = some .text then 0 else instrsSinceText before + s.instr?.toList.length := by
  unfold instrsSinceText instrs
  rw [List.reverse_append, List.reverse_singleton, List.singleton_append, List.takeWhile_cons]
  by_cases restarts : s.switch? = some .text
  · simp [restarts]
  · cases hs : s.instr? with
    | none => simp [restarts, hs]
    | some i => simp [restarts, hs]

theorem instrs_concat : instrs (before ++ [s]) = instrs before ++ s.instr?.toList := by
  cases hs : s.instr? with
  | none => simp [instrs, hs]
  | some i => simp [instrs, hs]

theorem instrsSinceText_le : instrsSinceText before ≤ (instrs before).length := by
  induction before using List.reverseRecOn with
  | nil => exact Nat.le_refl _
  | append_singleton before s ih =>
    rw [instrsSinceText_concat, instrs_concat, List.length_append]
    split <;> omega

theorem dataBytes_concat : dataBytes (before ++ [s]) = dataBytes before + s.dataLength := by
  simp [dataBytes]

theorem dataBytes_le {before statements : List Statement} (inside : before <+: statements) :
    dataBytes before ≤ dataBytes statements := by
  obtain ⟨after, rfl⟩ := inside
  simp [dataBytes]

theorem textAddress_concat : textAddress (before ++ [s]) = if s.switch? = some .text then textBase
    else textAddress before + BitVec.ofNat 32 (4 * s.instr?.toList.length) := by
  unfold textAddress
  rw [instrsSinceText_concat]
  split
  · exact BitVec.add_zero _
  · rw [Nat.mul_add, BitVec.ofNat_add, BitVec.add_assoc]

theorem toNat_dataAddress {before : List Statement}
    (room : dataBase.toNat + dataBytes before < 2 ^ 32) :
    (dataAddress before).toNat = dataBase.toNat + dataBytes before := by
  rw [dataAddress, BitVec.toNat_add, BitVec.toNat_ofNat, Nat.add_mod_mod, Nat.mod_eq_of_lt room]

theorem dataLength_eq_zero {s : Statement} (h : s.home? ≠ some .data) : s.dataLength = 0 := by
  unfold home? at h
  unfold dataLength
  cases hn : s.nucleus with
  | instr i => rfl
  | empty => rfl
  | directive d =>
    rw [hn] at h
    cases d with
    | data | text | globl label => rfl
    | word values | asciiz text => exact absurd rfl h

theorem not_defines_nil {name : String} {address : Word} : ¬Defines [] name address :=
  fun ⟨_, _, inside, _⟩ => not_concat_isPrefix_nil inside

theorem defines_concat {name : String} {address : Word} :
    Defines (before ++ [s]) name address ↔ Defines before name address ∨
      (∃ label ∈ s.labels, label.name = name) ∧ addressAfter before = address := by
  constructor
  · rintro ⟨earlier, t, inside, defined, here⟩
    rcases List.prefix_concat_iff.1 inside with same | inside
    · obtain ⟨rfl, last⟩ := List.append_inj' same rfl
      cases last
      exact .inr ⟨defined, here⟩
    · exact .inl ⟨earlier, t, inside, defined, here⟩
  · rintro (⟨earlier, t, inside, defined, here⟩ | ⟨defined, here⟩)
    · exact ⟨earlier, t, inside.trans (List.prefix_append ..), defined, here⟩
    · exact ⟨before, s, List.prefix_refl _, defined, here⟩

end Statement

namespace SymbolTable

open Statement

namespace Cursor

variable {c c' : Cursor} {before : List Statement} {s : Statement}

theorem layOut_eq_ok {bytes : Nat} {span : Span} : c.layOut bytes span = .ok c' ↔
    c.segment = .data ∧ c.data + bytes < 2 ^ 32 ∧ c' = { c with data := c.data + bytes } := by
  unfold layOut
  cases c.segment with
  | text => exact iff_of_false nofun nofun
  | data =>
    by_cases room : c.data + bytes < 1 <<< 32
    · simp only [if_pos room, Except.ok.injEq, true_and, eq_comm (a := c')]
      exact ⟨fun same => ⟨room, same⟩, fun h => h.2⟩
    · rw [if_neg room]
      exact iff_of_false nofun fun h => room h.2.1

/-- The cursor moves behind a statement if that stands where it must and there is room for its
data. -/
theorem advance_eq_ok : c.advance s = .ok c' ↔
    (∀ segment, s.home? = some segment → c.segment = segment) ∧
      (s.home? = some .data → c.data + s.dataLength < 2 ^ 32) ∧
      c' = ⟨s.switch?.getD c.segment, if s.switch? = some .text then textBase else
        c.pc + BitVec.ofNat 32 (4 * s.instr?.toList.length), c.data + s.dataLength⟩ := by
  obtain ⟨labels, nucleus, span⟩ := s
  obtain ⟨segment, pc, data⟩ := c
  cases nucleus with
  | instr i =>
    cases segment with
    | text => simp [advance, home?, switch?, instr?, dataLength, eq_comm]
    | data => simp [advance, home?]
  | empty => simp [advance, home?, switch?, instr?, dataLength, eq_comm (a := c')]
  | directive d =>
    cases d with
    | data | text | globl label =>
      simp [advance, home?, switch?, instr?, dataLength, Directive.byteLength, eq_comm (a := c')]
    | word values | asciiz text =>
      simp [advance, layOut_eq_ok, home?, switch?, instr?, dataLength]

def after (before : List Statement) : Cursor :=
  ⟨segmentAfter before, textAddress before, dataBase.toNat + dataBytes before⟩

theorem address_after (before : List Statement) : (after before).address = addressAfter before := by
  unfold address addressAfter after
  cases segmentAfter before with
  | text => rfl
  | data =>
    change BitVec.ofNat 32 (dataBase.toNat + dataBytes before) = dataAddress before
    rw [BitVec.ofNat_add, BitVec.ofNat_toNat, BitVec.setWidth_eq]
    rfl

theorem advance_after : (after before).advance s = .ok c' ↔
    (∀ segment, s.home? = some segment → segmentAfter before = segment) ∧
      (s.home? = some .data → dataBase.toNat + dataBytes (before ++ [s]) < 2 ^ 32) ∧
      c' = after (before ++ [s]) := by
  rw [advance_eq_ok, after, after, segmentAfter_concat, textAddress_concat, dataBytes_concat,
    Nat.add_assoc]

end Cursor

variable {t t' : SymbolTable} {c : Cursor} {before statements : List Statement} {s : Statement}
  {state state' : SymbolTable × Cursor} {name : String} {address : Word}

/-- A label is defined where the cursor stands, unless it is already defined elsewhere. -/
theorem define_succeeds_iff {label : Label} : (∃ t', t.define c label = .ok t') ↔
    ∀ address, t.address? label.name = some address → address = c.address := by
  unfold define address?
  cases found : t.find? label.name with
  | none => simp
  | some symbol =>
    by_cases here : symbol.address = c.address
    · simp [here]
    · simp [here]

theorem address?_define {label : Label} (h : t.define c label = .ok t') :
    t'.address? name = some address ↔
      t.address? name = some address ∨ label.name = name ∧ c.address = address := by
  have own := address?_define_self h
  unfold define at h
  split at h
  next found =>
    split at h
    · cases h
      refine ⟨.inl, ?_⟩
      rintro (known | ⟨rfl, rfl⟩)
      · exact known
      · exact own
    · cases h
  next missing =>
    by_cases same : label.name = name
    · subst same
      have before : t.address? label.name = none := by rw [address?, missing, Option.map_none]
      simp [own, before]
    · cases h
      simp [same, address?, find?, Std.ExtTreeMap.getElem?_insert]

theorem address?_foldlM_define {labels : List Label}
    (h : labels.foldlM (fun t label => t.define c label) t = .ok t') :
    t'.address? name = some address ↔ t.address? name = some address ∨
      (∃ label ∈ labels, label.name = name) ∧ c.address = address := by
  induction labels generalizing t with
  | nil =>
    cases h
    simp
  | cons label rest ih =>
    obtain ⟨m, first, others⟩ := foldlM_cons_eq_ok.1 h
    rw [ih others, address?_define first, or_assoc, ← or_and_right]
    simp only [List.mem_cons, exists_eq_or_imp]

/-- A label that stands twice before one statement is defined at the same place both times. -/
theorem foldlM_define_succeeds_iff {labels : List Label} :
    (∃ t', labels.foldlM (fun t label => t.define c label) t = .ok t') ↔
      ∀ label ∈ labels, ∀ address, t.address? label.name = some address → address = c.address := by
  induction labels generalizing t with
  | nil => exact iff_of_true ⟨t, rfl⟩ nofun
  | cons label rest ih =>
    rw [List.forall_mem_cons, ← define_succeeds_iff]
    constructor
    · rintro ⟨t', h⟩
      obtain ⟨m, first, others⟩ := foldlM_cons_eq_ok.1 h
      refine ⟨⟨m, first⟩, fun other inside address known => ?_⟩
      exact ih.1 ⟨t', others⟩ other inside address ((address?_define first).2 (.inl known))
    · rintro ⟨⟨m, first⟩, allowed⟩
      have others : ∀ other ∈ rest, ∀ address, m.address? other.name = some address →
          address = c.address := by
        intro other inside address known
        rcases (address?_define first).1 known with known | ⟨_, here⟩
        · exact allowed other inside address known
        · exact here.symm
      obtain ⟨t', h⟩ := ih.2 others
      exact ⟨t', foldlM_cons_eq_ok.2 ⟨m, first, h⟩⟩

/-- What the first pass knows behind statements: where the next one lies, and the addresses of
all definitions. -/
structure Tracks (before : List Statement) (state : SymbolTable × Cursor) : Prop where
  cursor : state.2 = .after before
  room : dataBase.toNat + dataBytes before < 2 ^ 32
  table : ∀ {name address}, state.1.address? name = some address ↔ Defines before name address

theorem tracks_start : Tracks [] (empty, .start) := by
  refine ⟨rfl, by decide, fun {name address} => iff_of_false ?_ not_defines_nil⟩
  simp [address?, find?, empty]

theorem tracks_addStatement (h : addStatement state s = .ok state') (tracks : Tracks before state) :
    Tracks (before ++ [s]) state' := by
  obtain ⟨defined, moved⟩ := addStatement_eq_ok.1 h
  rw [tracks.cursor] at defined moved
  obtain ⟨_, room, behind⟩ := Cursor.advance_after.1 moved
  refine ⟨behind, ?_, fun {name address} => ?_⟩
  · by_cases data : s.home? = some .data
    · exact room data
    · rw [dataBytes_concat, dataLength_eq_zero data]
      exact tracks.room
  · rw [address?_foldlM_define defined, tracks.table, Cursor.address_after, defines_concat]

theorem tracks_of_foldlM (h : statements.foldlM addStatement (empty, .start) = .ok state) :
    Tracks statements state :=
  foldlM_establishes tracks_addStatement h tracks_start

theorem addStatement_succeeds_iff (tracks : Tracks before state) :
    (∃ state', addStatement state s = .ok state') ↔ Allowed before s := by
  obtain ⟨t, c⟩ := state
  obtain ⟨rfl, _, table⟩ := tracks
  have labels : (∃ t', s.labels.foldlM (fun t label => t.define (.after before) label) t = .ok t') ↔
      ∀ label ∈ s.labels, ∀ address, Defines before label.name address →
        address = addressAfter before := by
    rw [foldlM_define_succeeds_iff, Cursor.address_after]
    simp only [table]
  constructor
  · rintro ⟨⟨t', c'⟩, h⟩
    obtain ⟨defined, moved⟩ := addStatement_eq_ok.1 h
    obtain ⟨home, room, _⟩ := Cursor.advance_after.1 moved
    exact ⟨labels.1 ⟨t', defined⟩, home, room⟩
  · rintro ⟨consistent, home, room⟩
    obtain ⟨t', defined⟩ := labels.2 consistent
    exact ⟨(t', .after (before ++ [s])),
      addStatement_eq_ok.2 ⟨defined, Cursor.advance_after.2 ⟨home, room, rfl⟩⟩⟩

/-- The first pass goes over all statements just if it may go over each. -/
theorem foldlM_addStatement_succeeds_iff :
    (∃ state, statements.foldlM addStatement (empty, .start) = .ok state) ↔
      ∀ before s, before ++ [s] <+: statements → Allowed before s :=
  foldlM_succeeds_iff (I := Tracks) (C := Allowed) tracks_addStatement
    (fun _ tracks => addStatement_succeeds_iff tracks) tracks_start

/-- The symbols of a table are those of statements: each has the address and the segment of a
statement with a label of its name. -/
def Describes (statements : List Statement) (t : SymbolTable) : Prop :=
  ∀ name symbol, t.find? name = some symbol → ∃ before s, before ++ [s] <+: statements ∧
    (∃ label ∈ s.labels, label.name = name) ∧
    symbol.address = addressAfter before ∧ symbol.segment = segmentAfter before

theorem find?_define {label : Label} {symbol : Symbol} (h : t.define c label = .ok t')
    (found : t'.find? name = some symbol) : t.find? name = some symbol ∨
      label.name = name ∧ symbol = ⟨c.address, label.start, c.segment⟩ := by
  unfold define at h
  split at h
  · split at h
    · cases h
      exact .inl found
    · cases h
  · cases h
    rw [find?, Std.ExtTreeMap.getElem?_insert] at found
    split at found
    next same =>
      cases found
      exact .inr ⟨Std.compare_eq_iff_eq.1 same, rfl⟩
    · exact .inl found

theorem find?_foldlM_define {labels : List Label} {symbol : Symbol}
    (h : labels.foldlM (fun t label => t.define c label) t = .ok t')
    (found : t'.find? name = some symbol) : t.find? name = some symbol ∨
      ∃ label ∈ labels, label.name = name ∧ symbol = ⟨c.address, label.start, c.segment⟩ := by
  induction labels generalizing t with
  | nil =>
    cases h
    exact .inl found
  | cons label rest ih =>
    obtain ⟨m, first, others⟩ := foldlM_cons_eq_ok.1 h
    rcases ih others with known | ⟨other, member, here⟩
    · exact (find?_define first known).imp_right fun here => ⟨label, List.mem_cons_self, here⟩
    · exact .inr ⟨other, List.mem_cons_of_mem _ member, here⟩

theorem describes_addStatement (h : addStatement state s = .ok state')
    (tracks : Tracks before state) (described : Describes before state.1) :
    Describes (before ++ [s]) state'.1 := by
  intro name symbol found
  obtain ⟨defined, -⟩ := addStatement_eq_ok.1 h
  rcases find?_foldlM_define defined found with known | ⟨label, member, named, rfl⟩
  · obtain ⟨earlier, t, inside, placed⟩ := described name symbol known
    exact ⟨earlier, t, inside.trans (List.prefix_append ..), placed⟩
  · rw [tracks.cursor]
    exact ⟨before, s, List.prefix_refl _, ⟨label, member, named⟩, Cursor.address_after before, rfl⟩

theorem describes_of_foldlM (h : statements.foldlM addStatement (empty, .start) = .ok state) :
    Describes statements state.1 := by
  refine (foldlM_establishes (I := fun before state => Tracks before state ∧
    Describes before state.1) ?_ h ⟨tracks_start, ?_⟩).2
  · intro before s x y added known
    exact ⟨tracks_addStatement added known.1, describes_addStatement added known.1 known.2⟩
  · intro name symbol found
    simp [find?, empty] at found

end SymbolTable

/-- The labels of a program are those that its statements define. -/
theorem Program.address?_of_assemble {statements : List Statement} {source : Option String}
    {p : Program} (h : assemble statements source = .ok p) {name : String} {address : Word} :
    p.symbols.address? name = some address ↔ Statement.Defines statements name address := by
  obtain ⟨_, _, first, _⟩ := assemble_eq_ok.1 h
  exact (SymbolTable.tracks_of_foldlM first).table

end Mips
