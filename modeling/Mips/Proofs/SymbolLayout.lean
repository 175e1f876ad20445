import Mips.Proofs.LabelDefinitions
import Mips.Proofs.Positions

/-!
# The symbol table as a layout

Every definition of a label has a place that the statements before it tell. The table holds the
first definition of each name at its place, and all others have the same address. The label that is
found for an address is the first in the source, in whatever order the table is gone over.
-/
namespace Mips

/-- A definition of a label, and where it is put. -/
structure Placement where
  label : Label
  segment : Segment
  address : Nat
  deriving DecidableEq

def Placement.symbol (p : Placement) : Symbol :=
  ⟨BitVec.ofNat 32 p.address, p.label.start, p.segment⟩

/-- The definition stands in the text segment at the address. -/
def Placement.isAt (address : Word) (p : Placement) : Bool :=
  p.segment = .text ∧ p.address = address.toNat

def Placement.firsts : List Placement → List Placement
  | [] => []
  | p :: rest => p :: (firsts rest).filter fun q => q.label.name ≠ p.label.name

namespace Statement

/-- A definition behind statements: in the text four bytes for each instruction since the last
`.text`, in the data segment all data before it. -/
def placeAfter (before : List Statement) (label : Label) : Placement :=
  match segmentAfter before with
  | .text => ⟨label, .text, 4 * instrsSinceText before⟩
  | .data => ⟨label, .data, dataBase.toNat + dataBytes before⟩

def placementsAfter (before : List Statement) : List Statement → List Placement
  | [] => []
  | s :: rest => s.labels.map (placeAfter before) ++ placementsAfter (before ++ [s]) rest

def placements (statements : List Statement) : List Placement :=
  placementsAfter [] statements

section

variable (before statements : List Statement) (s : Statement) (label : Label)

@[simp] theorem label_placeAfter : (placeAfter before label).label = label := by
  unfold placeAfter
  split <;> rfl

@[simp] theorem symbol_placeAfter : (placeAfter before label).symbol =
    ⟨addressAfter before, label.start, segmentAfter before⟩ := by
  unfold placeAfter addressAfter
  cases segmentAfter before with
  | text => simp [Placement.symbol, textAddress, textBase]
  | data => simp [Placement.symbol, dataAddress, BitVec.ofNat_add]

theorem placementsAfter_concat : placementsAfter before (statements ++ [s]) =
    placementsAfter before statements ++ s.labels.map (placeAfter (before ++ statements)) := by
  induction statements generalizing before with
  | nil => simp [placementsAfter]
  | cons first rest ih =>
    rw [List.cons_append, placementsAfter, ih, placementsAfter]
    simp

theorem placements_concat : placements (statements ++ [s]) =
    placements statements ++ s.labels.map (placeAfter statements) :=
  placementsAfter_concat [] statements s

theorem map_label_placements :
    (placements statements).map Placement.label = statements.flatMap Statement.labels := by
  induction statements using List.reverseRecOn with
  | nil => rfl
  | append_singleton statements s ih =>
    rw [placements_concat, List.map_append, ih, List.flatMap_append, List.map_map]
    simp [Function.comp_def]

end

theorem exists_of_mem_placements {statements : List Statement} {p : Placement}
    (member : p ∈ placements statements) : ∃ before s, before ++ [s] <+: statements ∧
      p.label ∈ s.labels ∧ p = placeAfter before p.label := by
  induction statements using List.reverseRecOn with
  | nil => cases member
  | append_singleton statements s ih =>
    rw [placements_concat] at member
    rcases List.mem_append.1 member with member | member
    · obtain ⟨before, t, inside, placed⟩ := ih member
      exact ⟨before, t, inside.trans (List.prefix_append ..), placed⟩
    · obtain ⟨label, member, rfl⟩ := List.mem_map.1 member
      exact ⟨statements, s, List.prefix_refl _, by rwa [label_placeAfter], by rw [label_placeAfter]⟩

/-- Addresses do not wrap where there is room for all instructions and all data. -/
theorem address_lt_of_mem_placements {statements : List Statement}
    (few : (instrs statements).length < 2 ^ 30)
    (room : dataBase.toNat + dataBytes statements < 2 ^ 32) :
    ∀ p ∈ placements statements, p.address < 2 ^ 32 := by
  intro p member
  obtain ⟨before, s, inside, -, placed⟩ := exists_of_mem_placements member
  have inside : before <+: statements := (List.prefix_append ..).trans inside
  rw [placed, placeAfter]
  cases segmentAfter before with
  | text =>
    have least := instrsSinceText_le before
    have most : (instrs before).length ≤ (instrs statements).length :=
      (inside.filterMap _).length_le
    dsimp only
    omega
  | data =>
    have most := dataBytes_le inside
    dsimp only
    omega

end Statement

namespace Placement

variable {placements : List Placement} {p : Placement}

theorem firsts_sublist (placements : List Placement) : (firsts placements).Sublist placements := by
  induction placements with
  | nil => exact .slnil
  | cons p rest ih => exact .cons_cons p (List.filter_sublist.trans ih)

/-- A definition is the first of its name just if looking for the name finds it. -/
theorem mem_firsts : p ∈ firsts placements ↔
    placements.find? (fun q => q.label.name = p.label.name) = some p := by
  induction placements with
  | nil => simp [firsts]
  | cons q rest ih =>
    rw [firsts, List.mem_cons, List.mem_filter, ih, List.find?_cons]
    by_cases same : q.label.name = p.label.name
    · simp [same, eq_comm]
    · have other : p ≠ q := fun h => same (by rw [h])
      simp [same, Ne.symm same, other]

end Placement

namespace SymbolTable

open Statement

variable {t t' : SymbolTable} {c : Cursor} {label : Label} {labels : List Label} {name : String}
  {statements : List Statement} {state : SymbolTable × Cursor}

theorem find?_define_eq (h : t.define c label = .ok t') : t'.find? name =
    (t.find? name).or (([label].find? fun l => l.name = name).map fun l =>
      ⟨c.address, l.start, c.segment⟩) := by
  unfold define at h
  split at h
  next symbol found =>
    split at h
    · cases h
      by_cases same : label.name = name
      · rw [← same, found]
        rfl
      · simp [same]
    · cases h
  next missing =>
    cases h
    rw [find?, Std.ExtTreeMap.getElem?_insert]
    by_cases same : label.name = name
    · simp [← same, missing]
    · simp [same, find?]

theorem find?_foldlM_define_eq (h : labels.foldlM (fun t label => t.define c label) t = .ok t') :
    t'.find? name = (t.find? name).or ((labels.find? fun l => l.name = name).map fun l =>
      ⟨c.address, l.start, c.segment⟩) := by
  induction labels generalizing t with
  | nil =>
    cases h
    simp
  | cons label rest ih =>
    obtain ⟨m, first, others⟩ := foldlM_cons_eq_ok.1 h
    rw [ih others, find?_define_eq first, Option.or_assoc, ← Option.map_or, ← List.find?_append]
    rfl

def Holds (t : SymbolTable) (placements : List Placement) : Prop :=
  ∀ name, t.find? name =
    (placements.find? fun p => p.label.name = name).map Placement.symbol

theorem holds_of_foldlM (h : statements.foldlM addStatement (empty, .start) = .ok state) :
    state.1.Holds (placements statements) := by
  refine (foldlM_establishes (I := fun before state => Tracks before state ∧
    Holds state.1 (placements before)) ?_ h ⟨tracks_start, ?_⟩).2
  · intro before s x y added known
    refine ⟨tracks_addStatement added known.1, fun name => ?_⟩
    obtain ⟨defined, -⟩ := addStatement_eq_ok.1 added
    rw [find?_foldlM_define_eq defined, known.2, placements_concat, List.find?_append,
      Option.map_or, List.find?_map, Option.map_map, known.1.cursor, Cursor.address_after]
    simp [Function.comp_def, Cursor.after]
  · intro name
    simp [find?, empty, placements, placementsAfter]

/-- The later entry gives way to one that begins earlier. -/
def earlier (best : Option (String × Symbol)) (entry : String × Symbol) :
    Option (String × Symbol) :=
  match best with
  | none => some entry
  | some b => if entry.2.start < b.2.start then some entry else some b

/-- The label that is found for an address by going over the entries of a table in an order. -/
def labelAmong (entries : List (String × Symbol)) (address : Word) : Option String :=
  let here := entries.filter fun entry => entry.2.segment = .text && entry.2.address = address
  (here.foldl earlier none).map Prod.fst

theorem labelAt?_eq (t : SymbolTable) (address : Word) :
    t.labelAt? address = labelAmong t.toList address := rfl

section

variable {entries : List (String × Symbol)} {best entry : String × Symbol}

theorem foldl_earlier_some (inside : best = entry ∨ entry ∈ entries)
    (least : ∀ other ∈ best :: entries, other ≠ entry → entry.2.start < other.2.start) :
    entries.foldl earlier (some best) = some entry := by
  induction entries generalizing best with
  | nil =>
    obtain rfl := inside.resolve_right List.not_mem_nil
    rfl
  | cons next rest ih =>
    obtain ⟨own, others⟩ := List.forall_mem_cons.1 least
    obtain ⟨new, later⟩ := List.forall_mem_cons.1 others
    rw [List.foldl_cons, earlier]
    split
    next sooner =>
      refine ih ?_ (List.forall_mem_cons.2 ⟨new, later⟩)
      rcases inside with rfl | inside
      · refine .inl (by_contra fun other => ?_)
        exact absurd sooner (Nat.lt_asymm (new other))
      · exact (List.mem_cons.1 inside).imp_left Eq.symm
    next sooner =>
      refine ih ?_ (List.forall_mem_cons.2 ⟨own, later⟩)
      rcases inside with same | inside
      · exact .inl same
      · refine (List.mem_cons.1 inside).imp_left fun same => ?_
        subst same
        exact by_contra fun other => sooner (own other)

/-- The entry that begins before all others is found, wherever it stands. -/
theorem foldl_earlier (entry : String × Symbol) (inside : entry ∈ entries)
    (least : ∀ other ∈ entries, other ≠ entry → entry.2.start < other.2.start) :
    entries.foldl earlier none = some entry := by
  cases entries with
  | nil => cases inside
  | cons first rest =>
    exact foldl_earlier_some ((List.mem_cons.1 inside).imp_left Eq.symm) least

end

namespace Holds

variable {placements : List Placement} {entries : List (String × Symbol)} {address : Word}

theorem mem_names (holds : t.Holds placements) : name ∈ t.toList.map Prod.fst ↔
    ∃ p ∈ placements, p.label.name = name := by
  have some : (∃ symbol, t.find? name = some symbol) ↔ ∃ p ∈ placements, p.label.name = name := by
    rw [← Option.isSome_iff_exists, holds name, Option.isSome_map, List.find?_isSome]
    simp
  rw [← some, toList, Std.ExtTreeMap.map_fst_toList_eq_keys, Std.ExtTreeMap.mem_keys,
    Std.ExtTreeMap.mem_iff_isSome_getElem?, Option.isSome_iff_exists]
  rfl

theorem mem_toList (holds : t.Holds placements) {entry : String × Symbol} : entry ∈ t.toList ↔
    ∃ p ∈ Placement.firsts placements, entry = (p.label.name, p.symbol) := by
  obtain ⟨name, symbol⟩ := entry
  have found : (name, symbol) ∈ t.toList ↔ t.find? name = some symbol :=
    Std.ExtTreeMap.mem_toList_iff_getElem?_eq_some
  rw [found, holds name, Option.map_eq_some_iff]
  constructor
  · rintro ⟨p, first, rfl⟩
    have named : p.label.name = name := by simpa using List.find?_some first
    subst named
    exact ⟨p, Placement.mem_firsts.2 first, rfl⟩
  · rintro ⟨p, first, same⟩
    cases same
    exact ⟨p, Placement.mem_firsts.1 first, rfl⟩

theorem isAt_iff {p : Placement} (bounded : p.address < 2 ^ 32) : p.isAt address = true ↔
    (p.symbol.segment = .text && p.symbol.address = address) = true := by
  have toNat : p.symbol.address = address ↔ p.address = address.toNat := by
    rw [Placement.symbol, ← BitVec.toNat_inj, BitVec.toNat_ofNat, Nat.mod_eq_of_lt bounded]
  simp only [Placement.isAt, decide_eq_true_eq, Bool.and_eq_true, toNat]
  rfl

/-- Going over the table in any order finds the definition that is first in the source. -/
theorem labelAmong_eq (holds : t.Holds placements)
    (ordered : placements.Pairwise fun a b => a.label.start < b.label.start)
    (bounded : ∀ p ∈ placements, p.address < 2 ^ 32) (same : entries.Perm t.toList) :
    labelAmong entries address =
      ((Placement.firsts placements).find? (Placement.isAt address)).map fun p => p.label.name := by
  have sub := Placement.firsts_sublist placements
  have here : ∀ entry, entry ∈ entries.filter (fun entry => entry.2.segment = .text &&
      entry.2.address = address) ↔ ∃ p ∈ Placement.firsts placements, p.isAt address = true ∧
        entry = (p.label.name, p.symbol) := by
    intro entry
    rw [List.mem_filter, same.mem_iff, holds.mem_toList]
    constructor
    · rintro ⟨⟨p, first, rfl⟩, found⟩
      exact ⟨p, first, (isAt_iff (bounded p (sub.subset first))).2 found, rfl⟩
    · rintro ⟨p, first, found, rfl⟩
      exact ⟨⟨p, first, rfl⟩, (isAt_iff (bounded p (sub.subset first))).1 found⟩
  rw [labelAmong]
  cases found : (Placement.firsts placements).find? (Placement.isAt address) with
  | none =>
    have none : entries.filter (fun entry => entry.2.segment = .text &&
        entry.2.address = address) = [] := by
      refine List.eq_nil_iff_forall_not_mem.2 fun entry member => ?_
      obtain ⟨p, first, isAt, -⟩ := (here entry).1 member
      exact List.find?_eq_none.1 found p first isAt
    rw [none]
    rfl
  | some p =>
    obtain ⟨isAt, earlier, later, all, others⟩ := List.find?_eq_some_iff_append.1 found
    have ordered := ordered.sublist sub
    rw [all, List.pairwise_append, List.pairwise_cons] at ordered
    rw [foldl_earlier (p.label.name, p.symbol)]
    · rfl
    · exact (here _).2 ⟨p, all ▸ List.mem_append_right _ List.mem_cons_self, isAt, rfl⟩
    · intro other member different
      obtain ⟨q, first, also, rfl⟩ := (here other).1 member
      rw [all, List.mem_append, List.mem_cons] at first
      rcases first with first | rfl | first
      · exact absurd also (by simpa using others q first)
      · exact absurd rfl different
      · exact ordered.2.1.1 q first

end Holds

/-- The table is the layout of the statements, whose labels stand in the order of the source: it has
the first definition of each name with its place, all other definitions of the name lie at the same
address, and looking for an address finds the first definition there, in whatever order. -/
structure IsLayout (statements : List Statement) (t : SymbolTable) : Prop where
  ordered : (placements statements).Pairwise fun a b => a.label.start < b.label.start
  names : ∀ name, name ∈ t.toList.map Prod.fst ↔
    ∃ label ∈ statements.flatMap Statement.labels, label.name = name
  once : (t.toList.map Prod.fst).Nodup
  addresses : ∀ p ∈ placements statements, ∃ address,
    t.address? p.label.name = some address ∧ address.toNat = p.address
  spans : ∀ name, (t.find? name).map (fun symbol => symbol.span name) =
    ((statements.flatMap Statement.labels).find? fun label => label.name = name).map Label.span
  labelAt : ∀ address, t.labelAt? address = ((Placement.firsts (placements statements)).find?
    (Placement.isAt address)).map fun p => p.label.name
  anyOrder : ∀ entries address, entries.Perm t.toList →
    labelAmong entries address = t.labelAt? address

theorem isLayout_of_parse {source : String} (parsed : parse source = .ok statements)
    (few : (instrs statements).length < 2 ^ 30) (built : ofStatements statements = .ok t) :
    t.IsLayout statements := by
  obtain ⟨c, passed⟩ := ofStatements_eq_ok.1 built
  have holds := holds_of_foldlM passed
  have bounded := address_lt_of_mem_placements few (tracks_of_foldlM passed).room
  have ordered : (placements statements).Pairwise fun a b => a.label.start < b.label.start := by
    have labels := pairwise_labels_of_parse parsed
    rw [← map_label_placements, List.pairwise_map] at labels
    exact labels
  have found : ∀ entries address, entries.Perm t.toList → labelAmong entries address =
      ((Placement.firsts (placements statements)).find? (Placement.isAt address)).map
        fun p => p.label.name := fun _ _ same => holds.labelAmong_eq ordered bounded same
  constructor
  case ordered => exact ordered
  case names =>
    intro name
    rw [holds.mem_names, ← map_label_placements]
    simp only [List.mem_map, exists_exists_and_eq_and]
  case once =>
    rw [toList, Std.ExtTreeMap.map_fst_toList_eq_keys]
    exact Std.ExtTreeMap.nodup_keys
  case addresses =>
    intro p member
    refine ⟨p.symbol.address, ?_, ?_⟩
    · have defined : Defines statements p.label.name p.symbol.address := by
        obtain ⟨before, s, inside, label, placed⟩ := exists_of_mem_placements member
        refine ⟨before, s, inside, ⟨p.label, label, rfl⟩, ?_⟩
        rw [placed, symbol_placeAfter]
      exact (tracks_of_foldlM passed).table.2 defined
    · rw [Placement.symbol, BitVec.toNat_ofNat, Nat.mod_eq_of_lt (bounded p member)]
  case spans =>
    intro name
    rw [holds name, Option.map_map, ← map_label_placements, List.find?_map, Option.map_map]
    refine Option.map_congr fun p first => ?_
    obtain rfl : p.label.name = name := by simpa using List.find?_some first
    rfl
  case labelAt => exact fun address => found t.toList address (.refl _)
  case anyOrder =>
    intro entries address same
    rw [found entries address same, labelAt?_eq, found t.toList address (.refl _)]

/-- Labels in both segments, and one that is defined again behind a restart of the text. -/
def resumed : String :=
  "a: b: syscall\n.data\nv: .word 1\nw: .asciiz \"x\"\n.text\nc: a: jr $31\ne:"

def resumedStatements : List Statement :=
  [⟨[⟨"a", 0⟩, ⟨"b", 3⟩], .instr .syscall, ⟨6, 13⟩⟩,
   ⟨[], .directive .data, ⟨14, 19⟩⟩,
   ⟨[⟨"v", 20⟩], .directive (.word [1]), ⟨23, 30⟩⟩,
   ⟨[⟨"w", 31⟩], .directive (.asciiz "x"), ⟨34, 45⟩⟩,
   ⟨[], .directive .text, ⟨46, 51⟩⟩,
   ⟨[⟨"c", 52⟩, ⟨"a", 55⟩], .instr (.jr ⟨31⟩), ⟨58, 64⟩⟩,
   ⟨[⟨"e", 65⟩], .empty, ⟨67, 67⟩⟩]

theorem isLayout_resumed : parse resumed = .ok resumedStatements ∧
    ∃ t, ofStatements resumedStatements = .ok t ∧ t.IsLayout resumedStatements ∧
      t.address? "w" = some 0x10010004 ∧ t.address? "c" = some 0 ∧
        t.labelAt? 0 = some "a" ∧ t.labelAt? 0x10010000 = none := by
  have parsed : parse resumed = .ok resumedStatements := by decide +kernel
  have built : ofStatements resumedStatements = .ok _ := rfl
  exact ⟨parsed, _, built, isLayout_of_parse parsed (by decide) built, rfl, rfl, rfl, rfl⟩

end SymbolTable

end Mips
