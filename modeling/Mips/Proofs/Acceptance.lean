import Mips.Proofs.Expansion
import Mips.Proofs.Positions

/-!
# Which programs are assembled

A list of statements is assembled just if it is well-formed. Both passes are folds, and whether a
statement makes one of them fail is told by the statements before it; for the second pass the table
of the first is needed too, which has the definitions among all statements.
-/
namespace Mips

namespace Statement

/-- What is asked of statements so that they can be assembled. Nothing is asked of the labels of
jumps and of exported ones, nor of those of branches if they are not defined; a label may be
defined again at its address, and the text segment may be restarted while it is empty. -/
structure WellFormed (statements : List Statement) : Prop where
  segments : ∀ before s, before ++ [s] <+: statements →
    ∀ segment, s.home? = some segment → segmentAfter before = segment
  labels : ∀ name address address', Defines statements name address →
    Defines statements name address' → address = address'
  restarts : ∀ before s after, statements = before ++ s :: after →
    s.nucleus = .directive .text → instrs before = [] ∨ instrs after = []
  operands : ∀ s ∈ statements, ∀ i label, s.nucleus = .instr i → i.operandLabel? = some label →
    ∃ address, Defines statements label.name address
  branches : ∀ before s, before ++ [s] <+: statements → ∀ op rs rt label,
    s.nucleus = .instr (.branch op rs rt label) → ∀ address, Defines statements label.name address →
      Instr.WithinBranch (addressAfter before) address

variable {before statements : List Statement} {s : Statement}

/-- Labels have one address each just if no statement defines one again elsewhere. -/
theorem labels_iff :
    (∀ before s, before ++ [s] <+: statements → ∀ label ∈ s.labels, ∀ address,
      Defines before label.name address → address = addressAfter before) ↔
    ∀ name address address', Defines statements name address →
      Defines statements name address' → address = address' := by
  induction statements using List.reverseRecOn with
  | nil =>
    exact iff_of_true (fun before s inside => absurd inside not_concat_isPrefix_nil)
      fun _ _ _ defined => absurd defined not_defines_nil
  | append_singleton before s ih =>
    rw [forall_prefix_concat, ih]
    simp only [defines_concat]
    constructor
    · rintro ⟨earlier, last⟩ name address address' defined defined'
      rcases defined with old | ⟨⟨label, hl, rfl⟩, here⟩
      · rcases defined' with old' | ⟨⟨label, hl, rfl⟩, here'⟩
        · exact earlier _ _ _ old old'
        · exact (last label hl _ old).trans here'
      · rcases defined' with old' | ⟨_, here'⟩
        · exact here.symm.trans (last label hl _ old').symm
        · exact here.symm.trans here'
    · intro unique
      refine ⟨fun name address address' old old' => unique _ _ _ (.inl old) (.inl old'), ?_⟩
      intro label hl address old
      exact unique _ _ _ (.inl old) (.inr ⟨⟨label, hl, rfl⟩, rfl⟩)

theorem switch?_eq_text : s.switch? = some .text ↔ s.nucleus = .directive .text := by
  unfold switch?
  split <;> simp_all

theorem instrsSinceText_eq_iff : instrsSinceText before = (instrs before).length ↔
    ∀ earlier t, earlier ++ [t] <+: before → t.switch? = some .text → instrs earlier = [] := by
  induction before using List.reverseRecOn with
  | nil =>
    exact iff_of_true rfl fun earlier t inside => absurd inside not_concat_isPrefix_nil
  | append_singleton before s ih =>
    rw [forall_prefix_concat, ← ih, instrsSinceText_concat, instrs_concat, List.length_append]
    by_cases restarts : s.switch? = some .text
    · have other : s.instr? = none := by rw [instr?, switch?_eq_text.1 restarts]
      have counted : instrsSinceText before ≤ (instrs before).length :=
        instrsSinceText_le before
      rw [if_pos restarts, other]
      simp only [restarts, true_implies, ← List.length_eq_zero_iff]
      simp only [Option.toList_none, List.length_nil]
      omega
    · rw [if_neg restarts]
      simp only [restarts, false_implies, and_true]
      omega

theorem instrs_eq_nil_iff :
    instrs statements = [] ↔ ∀ s ∈ statements, ∀ i, s.nucleus ≠ .instr i := by
  rw [instrs, List.filterMap_eq_nil_iff]
  refine forall₂_congr fun s _ => ?_
  unfold instr?
  cases s.nucleus with
  | instr i => simp
  | directive d => simp
  | empty => simp

theorem restarts_iff :
    (∀ before s, before ++ [s] <+: statements → ∀ i, s.nucleus = .instr i →
      instrsSinceText before = (instrs before).length) ↔
    ∀ before s after, statements = before ++ s :: after → s.nucleus = .directive .text →
      instrs before = [] ∨ instrs after = [] := by
  simp only [instrsSinceText_eq_iff, switch?_eq_text]
  constructor
  · intro counted before t after cut restarts
    by_cases none : instrs after = []
    · exact .inr none
    · obtain ⟨s, hs, i, hi⟩ : ∃ s ∈ after, ∃ i, s.nucleus = .instr i := by
        simpa [instrs_eq_nil_iff] using none
      obtain ⟨between, rest, rfl⟩ := List.append_of_mem hs
      have inside : before ++ t :: between ++ [s] <+: statements := ⟨rest, by simp [cut]⟩
      have earlier : before ++ [t] <+: before ++ t :: between := ⟨between, by simp⟩
      exact .inl (counted _ s inside i hi before t earlier restarts)
  · rintro apart before s ⟨rest, rfl⟩ i hi earlier t ⟨between, rfl⟩ restarts
    have cut : earlier ++ [t] ++ between ++ [s] ++ rest =
        earlier ++ t :: (between ++ s :: rest) := by simp
    rcases apart earlier t _ cut restarts with none | none
    · exact none
    · exact absurd hi (instrs_eq_nil_iff.1 none s (by simp) i)

theorem addressAfter_of_instr {i : Instr} (hi : s.nucleus = .instr i)
    (home : ∀ segment, s.home? = some segment → segmentAfter before = segment) :
    addressAfter before = textAddress before := by
  have text : segmentAfter before = .text := home .text (by rw [home?, hi])
  rw [addressAfter, text]

end Statement

open Statement

namespace Program.Layout

variable {l l' : Layout} {symbols : SymbolTable} {before statements : List Statement}
  {s : Statement}

/-- What the second pass knows of the instructions among statements: their number and the address
of the next one. -/
structure Counts (before : List Statement) (l : Layout) : Prop where
  pc : l.pc = textAddress before
  size : l.slots.size = (instrs before).length

/-- A statement may be laid out behind others: an instruction comes right behind the last one and
has machine code there. -/
def Fits (symbols : SymbolTable) (before : List Statement) (s : Statement) : Prop :=
  ∀ i, s.nucleus = .instr i → textAddress before = slotAddress (instrs before).length ∧
    ∃ words, i.expand (textAddress before) symbols = .ok words

theorem pc_addStatement (h : l.addStatement symbols s = .ok l') :
    l'.pc = if s.switch? = some .text then textBase
      else l.pc + BitVec.ofNat 32 (4 * s.instr?.toList.length) := by
  unfold addStatement at h
  unfold Statement.switch? Statement.instr?
  cases hn : s.nucleus with
  | instr i =>
    rw [hn] at h
    obtain ⟨_, words, _, rfl⟩ := addInstr_eq_ok.1 h
    rfl
  | empty =>
    rw [hn] at h
    cases h
    exact (BitVec.add_zero _).symm
  | directive d =>
    rw [hn] at h
    cases d with
    | data | globl label | asciiz text =>
      cases h
      exact (BitVec.add_zero _).symm
    | text =>
      cases h
      rfl
    | word values =>
      cases h
      exact (pc_addWords l values).trans (BitVec.add_zero _).symm

theorem counts_addStatement (h : l.addStatement symbols s = .ok l') (counts : Counts before l) :
    Counts (before ++ [s]) l' := by
  constructor
  · rw [pc_addStatement h, textAddress_concat, counts.pc]
  · have size := congrArg List.length (source_addStatement h)
    rw [List.length_append, List.length_map, List.length_map, Array.length_toList,
      Array.length_toList, counts.size] at size
    rw [size, instrs_concat, List.length_append]

theorem addStatement_succeeds_iff (counts : Counts before l) :
    (∃ l', l.addStatement symbols s = .ok l') ↔ Fits symbols before s := by
  unfold addStatement Fits
  cases hn : s.nucleus with
  | empty => simp
  | directive d => cases d <;> simp
  | instr i =>
    rw [← counts.pc, ← counts.size]
    constructor
    · rintro ⟨l', h⟩ i same
      cases same
      obtain ⟨here, words, expanded, _⟩ := addInstr_eq_ok.1 h
      exact ⟨here, words, expanded⟩
    · intro h
      obtain ⟨here, words, expanded⟩ := h i rfl
      exact ⟨_, addInstr_eq_ok.2 ⟨here, words, expanded, rfl⟩⟩

theorem foldlM_addStatement_succeeds_iff :
    (∃ l, statements.foldlM (addStatement symbols) start = .ok l) ↔
      ∀ before s, before ++ [s] <+: statements → Fits symbols before s :=
  foldlM_succeeds_iff (I := Counts) (C := Fits symbols) counts_addStatement
    (fun _ counts => addStatement_succeeds_iff counts) ⟨rfl, rfl⟩

end Program.Layout

namespace Program

open Layout (slotAddress)

variable {statements : List Statement} {source : Option String}

/-- Statements are assembled just if both passes go over each of them. -/
theorem assemble_succeeds_iff : (∃ p, assemble statements source = .ok p) ↔
    (∀ before s, before ++ [s] <+: statements → Allowed before s) ∧
    ∀ before s, before ++ [s] <+: statements → ∀ i, s.nucleus = .instr i →
      textAddress before = slotAddress (instrs before).length ∧
      (∀ label, i.operandLabel? = some label → ∃ address, Defines statements label.name address) ∧
      ∀ op rs rt label, i = .branch op rs rt label → ∀ address,
        Defines statements label.name address →
          Instr.WithinBranch (textAddress before) address := by
  rw [← SymbolTable.foldlM_addStatement_succeeds_iff]
  constructor
  · rintro ⟨p, h⟩
    obtain ⟨c, l, first, second, _⟩ := assemble_eq_ok.1 h
    have laid := Layout.foldlM_addStatement_succeeds_iff.1 ⟨l, second⟩
    simp only [Layout.Fits, Instr.expand_succeeds_iff,
      (SymbolTable.tracks_of_foldlM first).table] at laid
    exact ⟨⟨_, first⟩, laid⟩
  · rintro ⟨⟨⟨symbols, c⟩, first⟩, laid⟩
    simp only [← (SymbolTable.tracks_of_foldlM first).table, ← Instr.expand_succeeds_iff] at laid
    obtain ⟨l, second⟩ := Layout.foldlM_addStatement_succeeds_iff.2 laid
    exact ⟨⟨l.slots, l.data, symbols, source⟩, assemble_eq_ok.2 ⟨c, l, first, second, rfl⟩⟩

/-- As long as addresses do not wrap, an instruction comes right behind the last one just if all
those before it are counted. -/
theorem textAddress_eq_iff {before : List Statement} (few : (instrs before).length < 2 ^ 30) :
    textAddress before = slotAddress (instrs before).length ↔
      instrsSinceText before = (instrs before).length := by
  have counted : instrsSinceText before ≤ (instrs before).length := instrsSinceText_le before
  have text : textAddress before = BitVec.ofNat 32 (4 * instrsSinceText before) :=
    BitVec.zero_add _
  rw [slotAddress_eq, text]
  constructor
  · intro same
    have numbers := congrArg BitVec.toNat same
    rw [BitVec.toNat_ofNat, BitVec.toNat_ofNat, Nat.mod_eq_of_lt (by omega),
      Nat.mod_eq_of_lt (by omega)] at numbers
    omega
  · intro same
    rw [same]

/-- Statements with less than 2^25 instructions and 2^28 bytes of data are assembled just if they
are well-formed. -/
theorem assemble_succeeds_iff_wellFormed (few : (instrs statements).length < 2 ^ 25)
    (small : dataBytes statements < 2 ^ 28) :
    (∃ p, assemble statements source = .ok p) ↔ WellFormed statements := by
  have fewBefore {before : List Statement} {s : Statement} (inside : before ++ [s] <+: statements) :
      (instrs before).length < 2 ^ 30 := by
    have := (inside.sublist.filterMap instr?).length_le
    rw [← instrs, ← instrs, instrs_concat, List.length_append] at this
    omega
  have roomFor {before : List Statement} {s : Statement} (inside : before ++ [s] <+: statements) :
      dataBase.toNat + dataBytes (before ++ [s]) < 2 ^ 32 := by
    have := dataBytes_le inside
    change 0x10010000 + dataBytes (before ++ [s]) < 2 ^ 32
    omega
  rw [assemble_succeeds_iff]
  constructor
  · rintro ⟨allowed, laid⟩
    constructor
    case segments => exact fun before s inside => (allowed before s inside).home
    case labels => exact labels_iff.1 fun before s inside => (allowed before s inside).labels
    case restarts =>
      refine restarts_iff.1 fun before s inside i hi => ?_
      exact (textAddress_eq_iff (fewBefore inside)).1 (laid before s inside i hi).1
    case operands =>
      intro s hs i label hi taken
      obtain ⟨before, after, rfl⟩ := List.append_of_mem hs
      obtain ⟨_, operands, _⟩ := laid before s ⟨after, by simp⟩ i hi
      exact operands label taken
    case branches =>
      intro before s inside op rs rt label hi
      obtain ⟨_, _, branches⟩ := laid before s inside _ hi
      rw [addressAfter_of_instr hi (allowed before s inside).home]
      exact branches op rs rt label rfl
  · intro wellFormed
    have home := wellFormed.segments
    refine ⟨fun before s inside => ?_, fun before s inside i hi => ⟨?_, ?_, ?_⟩⟩
    · exact ⟨labels_iff.2 wellFormed.labels before s inside, home before s inside,
        fun _ => roomFor inside⟩
    · exact (textAddress_eq_iff (fewBefore inside)).2
        (restarts_iff.2 wellFormed.restarts before s inside i hi)
    · exact fun label => wellFormed.operands s (inside.subset (by simp)) i label hi
    · rintro op rs rt label rfl
      rw [← addressAfter_of_instr hi (home before s inside)]
      exact wellFormed.branches before s inside op rs rt label hi

/-- Restarts around the instructions, a label that is defined twice at one address, and a branch,
a jump and an export of a label that is never defined. -/
def lenient : List Statement :=
  [⟨[], .directive .text, ⟨0, 5⟩⟩,
   ⟨[⟨"a", 6⟩], .directive .text, ⟨9, 14⟩⟩,
   ⟨[⟨"a", 15⟩], .instr (.branch .beq .zero .zero ⟨"a", 31⟩), ⟨18, 32⟩⟩,
   ⟨[], .instr (.branch .bne .zero .zero ⟨"b", 46⟩), ⟨33, 47⟩⟩,
   ⟨[], .instr (.jump .j ⟨"b", 50⟩), ⟨48, 51⟩⟩,
   ⟨[], .directive (.globl ⟨"b", 59⟩), ⟨52, 60⟩⟩,
   ⟨[], .directive .text, ⟨61, 66⟩⟩]

/-- One more instruction, which would take the place of the first. -/
def overlapping : List Statement :=
  lenient ++ [⟨[], .instr .syscall, ⟨67, 74⟩⟩]

theorem assemble_succeeds_iff_wellFormed_lenient :
    ((instrs lenient).length < 2 ^ 25 ∧ dataBytes lenient < 2 ^ 28 ∧ WellFormed lenient) ∧
      (instrs overlapping).length < 2 ^ 25 ∧ dataBytes overlapping < 2 ^ 28 ∧
        ¬WellFormed overlapping := by
  have assembled : ∃ p, assemble lenient none = .ok p := ⟨_, rfl⟩
  have rejected : ¬∃ p, assemble overlapping none = .ok p := by
    rintro ⟨p, h⟩
    have failed : assemble overlapping none = .error ⟨.slotTaken, _⟩ := rfl
    rw [failed] at h
    cases h
  refine ⟨⟨by decide, by decide, ?_⟩, by decide, by decide, ?_⟩
  · exact (assemble_succeeds_iff_wellFormed (by decide) (by decide)).1 assembled
  · exact fun h => rejected ((assemble_succeeds_iff_wellFormed (by decide) (by decide)).2 h)

end Program

end Mips
