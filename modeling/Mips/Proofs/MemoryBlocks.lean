import Mathlib.Algebra.GroupWithZero.Nat
import Mathlib.Data.List.Perm.Basic
import Mips.Memory

/-!
# Blocks of memory

Cells that are written in ascending order of their addresses are, in that order, the cells of the
memory. Blocks of cells ascend as long as addresses do not wrap, and so do blocks that follow one
another.
-/
namespace Mips

/-- Cells that hold the given values, `width` addresses apart. -/
def block (start : Word) (width : Nat) (values : List Word) : List (Word × Word) :=
  values.mapIdx fun n value => (start + BitVec.ofNat 32 (width * n), value)

theorem block_cons (start : Word) (width : Nat) (value : Word) (rest : List Word) :
    block start width (value :: rest) =
      (start, value) :: block (start + BitVec.ofNat 32 width) width rest := by
  unfold block
  rw [List.mapIdx_cons, Nat.mul_zero]
  congr 1
  · rw [BitVec.add_zero]
  · congr 1
    funext n value
    rw [Nat.mul_add, Nat.mul_one, Nat.add_comm, BitVec.ofNat_add, BitVec.add_assoc]

theorem mem_block {start : Word} {width : Nat} {values : List Word} {n : Nat} {value : Word}
    (h : values[n]? = some value) :
    (start + BitVec.ofNat 32 (width * n), value) ∈ block start width values := by
  apply List.mem_of_getElem? (i := n)
  rw [block, List.getElem?_mapIdx, h, Option.map_some]

/-- Cells in ascending order of their addresses, which are from `low` on and before `high`. -/
structure Ascending (low high : Nat) (cells : List (Word × Word)) : Prop where
  ordered : cells.Pairwise fun a b => a.1 < b.1
  within : ∀ cell ∈ cells, low ≤ cell.1.toNat ∧ cell.1.toNat < high

namespace Ascending

variable {low middle high : Nat} {cells cells' : List (Word × Word)}

theorem nil : Ascending low high [] :=
  ⟨.nil, nofun⟩

theorem append (h : Ascending low middle cells) (h' : Ascending middle high cells')
    (lower : low ≤ middle) (upper : middle ≤ high) : Ascending low high (cells ++ cells') := by
  constructor
  · refine List.pairwise_append.2 ⟨h.ordered, h'.ordered, fun a ha b hb => ?_⟩
    have := (h.within a ha).2
    have := (h'.within b hb).1
    exact BitVec.lt_def.2 (by omega)
  · intro cell inside
    rcases List.mem_append.1 inside with inside | inside
    · have := h.within cell inside
      omega
    · have := h'.within cell inside
      omega

theorem block {start : Word} {width : Nat} {values : List Word} (apart : 0 < width)
    (room : start.toNat + width * values.length < 2 ^ 32) :
    Ascending start.toNat (start.toNat + width * values.length) (block start width values) := by
  induction values generalizing start with
  | nil => exact nil
  | cons value rest ih =>
    rw [List.length_cons, Nat.mul_add, Nat.mul_one] at room ⊢
    have next : (start + BitVec.ofNat 32 width).toNat = start.toNat + width := by
      rw [BitVec.toNat_add, BitVec.toNat_ofNat, Nat.add_mod_mod, Nat.mod_eq_of_lt (by omega)]
    have others : Ascending (start.toNat + width) (start.toNat + width + width * rest.length)
        (Mips.block (start + BitVec.ofNat 32 width) width rest) := by
      rw [← next]
      exact ih (by omega)
    have first : Ascending start.toNat (start.toNat + width) [(start, value)] := by
      refine ⟨List.pairwise_singleton .., fun cell inside => ?_⟩
      obtain rfl := List.mem_singleton.1 inside
      exact ⟨Nat.le_refl _, Nat.lt_add_of_pos_right apart⟩
    rw [block_cons, ← List.singleton_append]
    have := first.append others (by omega) (by omega)
    rwa [Nat.add_comm (width * rest.length), ← Nat.add_assoc]

theorem nodup_addresses (h : Ascending low high cells) : (cells.map Prod.fst).Nodup := by
  refine List.pairwise_map.2 (h.ordered.imp fun before same => ?_)
  rw [same] at before
  exact absurd before (BitVec.lt_irrefl _)

end Ascending

/-- Ascending cells are determined by which cells they are. -/
theorem ordered_ext {cells cells' : List (Word × Word)}
    (h : cells.Pairwise fun a b => a.1 < b.1) (h' : cells'.Pairwise fun a b => a.1 < b.1)
    (same : ∀ cell, cell ∈ cells ↔ cell ∈ cells') : cells = cells' := by
  have unequal {a b : Word × Word} (before : a.1 < b.1) : a ≠ b := by
    rintro rfl
    exact BitVec.lt_irrefl _ before
  have perm := (List.perm_ext_iff_of_nodup (h.imp unequal) (h'.imp unequal)).2 same
  refine perm.eq_of_pairwise (fun a b _ _ before after => ?_) h h'
  exact absurd (BitVec.lt_trans before after) (BitVec.lt_irrefl _)

namespace Memory

theorem ext {m m' : Memory} (h : ∀ cell, cell ∈ m.toList ↔ cell ∈ m'.toList) : m = m' := by
  have same : m.cells = m'.cells := by
    apply Std.ExtTreeMap.ext_getElem?
    intro address
    apply Option.ext
    intro value
    exact mem_toList.symm.trans ((h (address, value)).trans mem_toList)
  cases m
  cases m'
  exact congrArg Memory.mk same

theorem setAll_append (m : Memory) (cells cells' : List (Word × Word)) :
    m.setAll (cells ++ cells') = (m.setAll cells).setAll cells' :=
  List.foldl_append ..

theorem mem_toList_set {m : Memory} {address value : Word} {cell : Word × Word} :
    cell ∈ (m.set address value).toList ↔
      cell = (address, value) ∨ cell.1 ≠ address ∧ cell ∈ m.toList := by
  simp only [mem_toList, set, Std.ExtTreeMap.getElem?_insert, Std.compare_eq_iff_eq, Prod.ext_iff]
  by_cases here : address = cell.1
  · simp [here, eq_comm]
  · simp [here, Ne.symm here]

theorem mem_toList_setAll {m : Memory} {cells : List (Word × Word)}
    (distinct : (cells.map Prod.fst).Nodup) {cell : Word × Word} :
    cell ∈ (m.setAll cells).toList ↔
      cell ∈ cells ∨ cell.1 ∉ cells.map Prod.fst ∧ cell ∈ m.toList := by
  induction cells generalizing m with
  | nil => simp [setAll]
  | cons first rest ih =>
    obtain ⟨new, distinct⟩ := List.nodup_cons.1 distinct
    change cell ∈ ((m.set first.1 first.2).setAll rest).toList ↔ _
    rw [ih distinct, mem_toList_set, List.mem_cons, List.map_cons, List.mem_cons, not_or]
    by_cases here : cell = first
    · subst here
      simp [new]
    · simp only [here, false_or, and_assoc, and_left_comm]

theorem ordered_toList (m : Memory) : m.toList.Pairwise fun a b => a.1 < b.1 := by
  have ordered : m.toList.Pairwise fun a b => compare a.1 b.1 = .lt :=
    Std.ExtTreeMap.ordered_keys_toList
  exact ordered.imp fun before => compareOfLessAndEq_eq_lt.1 before

/-- Ascending cells are the cells of the memory to which they are written. -/
theorem toList_setAll_empty {low high : Nat} {cells : List (Word × Word)}
    (h : Ascending low high cells) : (empty.setAll cells).toList = cells := by
  have members (cell) : cell ∈ (empty.setAll cells).toList ↔ cell ∈ cells := by
    rw [mem_toList_setAll h.nodup_addresses]
    simp [mem_toList, empty]
  exact ordered_ext (ordered_toList _) h.ordered members

theorem copyBlock_empty (m : Memory) : empty.copyBlock m = m := by
  have ascending : Ascending 0 (2 ^ 32) m.toList :=
    ⟨m.ordered_toList, fun cell _ => ⟨Nat.zero_le _, cell.1.isLt⟩⟩
  apply ext
  rw [copyBlock, toList_setAll_empty ascending]
  exact fun _ => Iff.rfl

end Memory

end Mips
