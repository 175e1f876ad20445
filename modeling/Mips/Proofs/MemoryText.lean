import Mathlib.Algebra.Group.Nat.Defs
import Mathlib.Data.List.Nodup
import Mathlib.Data.Nat.Find
import Mips.Memory

/-!
# Texts in memory

Reading a text stops after as many cells as were written and one more. That is never too early: if
any cell is zero, one of these is, as only written cells differ from zero and the cells that are
read are all different until they wrap. A text in memory is therefore what stands before the first
zero, in the order of all addresses from its own one on.
-/
namespace Mips

theorem takeWhile_concat_isPrefix (chars : List Char) (stop : Char) :
    chars.takeWhile (· ≠ stop) ++ [stop] <+: chars ++ [stop] := by
  induction chars with
  | nil => exact List.prefix_refl _
  | cons c rest ih =>
    by_cases ended : c = stop
    · subst ended
      simp
    · rw [List.takeWhile_cons_of_pos (by simpa using ended)]
      exact List.cons_prefix_cons.2 ⟨rfl, ih⟩

namespace Memory

/-- The values of all cells, from an address on and around to it. -/
def cellsFrom (m : Memory) (address : Word) : List Word :=
  (List.range (2 ^ 32)).map fun k => m.get (address + BitVec.ofNat 32 k)

/-- The characters of the cells from an address on, up to the first zero. -/
def textAt (m : Memory) (address : Word) : String :=
  String.ofList (((m.cellsFrom address).takeWhile (· ≠ 0)).map charOf)

variable (m : Memory) (address : Word)

theorem mem_keys_of_get_ne_zero {m : Memory} {address : Word} (h : m.get address ≠ 0) :
    address ∈ m.cells.keys := by
  rw [Std.ExtTreeMap.mem_keys, Std.ExtTreeMap.mem_iff_isSome_getElem?]
  cases found : m.cells[address]? with
  | none => simp [get, found] at h
  | some value => rfl

theorem ofNat_add_inj {j k : Nat} (hj : j < 2 ^ 32) (hk : k < 2 ^ 32)
    (h : address + BitVec.ofNat 32 j = address + BitVec.ofNat 32 k) : j = k := by
  have same : (BitVec.ofNat 32 j).toNat = (BitVec.ofNat 32 k).toNat :=
    congrArg BitVec.toNat ((BitVec.add_right_inj address).1 h)
  simpa only [BitVec.toNat_ofNat, Nat.mod_eq_of_lt, hj, hk] using same

/-- If any cell is zero, one of the first cells is, and there is one of them more than were
written. -/
theorem exists_le_size_get_eq_zero (zero : ∃ a, m.get a = 0) :
    ∃ k ≤ m.size, m.get (address + BitVec.ofNat 32 k) = 0 := by
  by_cases full : 2 ^ 32 ≤ m.size
  · obtain ⟨a, ha⟩ := zero
    refine ⟨(a - address).toNat, by omega, ?_⟩
    rwa [BitVec.ofNat_toNat, BitVec.setWidth_eq, BitVec.add_comm, BitVec.sub_add_cancel]
  · by_contra nowhere
    let addresses := (List.range (m.size + 1)).map fun k => address + BitVec.ofNat 32 k
    have different : addresses.Nodup := by
      refine List.Nodup.map_on ?_ List.nodup_range
      intro j hj k hk same
      rw [List.mem_range] at hj hk
      exact ofNat_add_inj address (by omega) (by omega) same
    have written : addresses ⊆ m.cells.keys := by
      intro a ha
      obtain ⟨k, hk, rfl⟩ := List.mem_map.1 ha
      refine mem_keys_of_get_ne_zero fun hz => nowhere ⟨k, ?_, hz⟩
      exact Nat.le_of_lt_succ (List.mem_range.1 hk)
    have := different.length_le_of_subset written
    rw [List.length_map, List.length_range, Std.ExtTreeMap.length_keys] at this
    exact absurd this (Nat.not_succ_le_self _)

theorem exists_first_zero (zero : ∃ a, m.get a = 0) :
    ∃ n < 2 ^ 32, n ≤ m.size ∧ m.get (address + BitVec.ofNat 32 n) = 0 ∧
      ∀ k < n, m.get (address + BitVec.ofNat 32 k) ≠ 0 := by
  obtain ⟨k, hk, found⟩ := m.exists_le_size_get_eq_zero address zero
  have exists_zero : ∃ k, m.get (address + BitVec.ofNat 32 k) = 0 := ⟨k, found⟩
  have least := fun j => Nat.find_min (m := j) exists_zero
  refine ⟨Nat.find exists_zero, ?_, Nat.le_trans (Nat.find_min' exists_zero found) hk,
    Nat.find_spec exists_zero, least⟩
  by_contra large
  refine least (Nat.find exists_zero % 2 ^ 32) (by omega) ?_
  have wraps : BitVec.ofNat 32 (Nat.find exists_zero % 2 ^ 32) =
      BitVec.ofNat 32 (Nat.find exists_zero) := by
    apply BitVec.eq_of_toNat_eq
    simp only [BitVec.toNat_ofNat, Nat.mod_mod]
  rw [wraps]
  exact Nat.find_spec exists_zero

theorem add_one_add_ofNat (k : Nat) :
    address + 1 + BitVec.ofNat 32 k = address + BitVec.ofNat 32 (k + 1) := by
  rw [BitVec.add_assoc, BitVec.add_comm 1, BitVec.ofNat_add]
  rfl

/-- The characters that are read are those of the cells before a zero that is within reach. -/
theorem readTextFrom_eq {n fuel : Nat} (done : String) (within : n < fuel)
    (zero : m.get (address + BitVec.ofNat 32 n) = 0)
    (nonzero : ∀ k < n, m.get (address + BitVec.ofNat 32 k) ≠ 0) :
    m.readTextFrom fuel address done = done ++ String.ofList
      ((List.range n).map fun k => charOf (m.get (address + BitVec.ofNat 32 k))) := by
  induction n generalizing address fuel done with
  | zero =>
    obtain ⟨fuel, rfl⟩ := Nat.exists_eq_succ_of_ne_zero (Nat.ne_of_gt within)
    have here : m.get address = 0 := by simpa using zero
    simp [readTextFrom, here]
  | succ n ih =>
    obtain ⟨fuel, rfl⟩ := Nat.exists_eq_succ_of_ne_zero (Nat.ne_zero_of_lt within)
    have next := add_one_add_ofNat address
    have here : m.get address ≠ 0 := by simpa using nonzero 0 (Nat.succ_pos n)
    rw [readTextFrom, if_neg here, ih (address + 1) _ (Nat.lt_of_succ_lt_succ within)
      (by rwa [next]) (fun k hk => by rw [next]; exact nonzero _ (Nat.succ_lt_succ hk))]
    apply String.toList_inj.1
    simp only [List.range_succ_eq_map, String.toList_append, String.toList_push,
      String.toList_ofList, List.map_cons, List.map_map, List.append_assoc, List.singleton_append,
      Function.comp_def, next]
    rw [BitVec.add_zero]

/-- Reading stops at the first zero if there is one. -/
theorem exists_readText_eq (zero : ∃ a, m.get a = 0) :
    ∃ n < 2 ^ 32, m.get (address + BitVec.ofNat 32 n) = 0 ∧
      (∀ k < n, m.get (address + BitVec.ofNat 32 k) ≠ 0) ∧ m.readText address =
        String.ofList
          ((List.range n).map fun k => charOf (m.get (address + BitVec.ofNat 32 k))) := by
  obtain ⟨n, hn, reached, found, before⟩ := m.exists_first_zero address zero
  have read := m.readTextFrom_eq address "" (Nat.lt_succ_of_le reached) found before
  rw [String.empty_append] at read
  exact ⟨n, hn, found, before, read⟩

theorem toNat_ofNat_char (c : Char) : (BitVec.ofNat 32 c.toNat).toNat = c.toNat := by
  have small : c.toNat < 2 ^ 32 := c.val.toNat_lt
  rw [BitVec.toNat_ofNat, Nat.mod_eq_of_lt small]

theorem charOf_ofNat (c : Char) : charOf (BitVec.ofNat 32 c.toNat) = c := by
  have valid : c.toNat.isValidChar := c.valid
  rw [charOf, toNat_ofNat_char, if_pos valid, Char.ofNat_toNat]

theorem ofNat_char_ne_zero {c : Char} (h : c ≠ '\x00') : BitVec.ofNat 32 c.toNat ≠ 0 := by
  intro zero
  have same := congrArg charOf zero
  rw [charOf_ofNat] at same
  exact h same

theorem readText_of_cells {chars : List Char} (shown : ∀ c ∈ chars, c ≠ '\x00')
    (held : ∀ (n : Nat) (c : Char), (chars ++ ['\x00'])[n]? = some c →
      m.get (address + BitVec.ofNat 32 n) = BitVec.ofNat 32 c.toNat) :
    m.readText address = String.ofList chars := by
  have zero : m.get (address + BitVec.ofNat 32 chars.length) = 0 := held _ '\x00' (by simp)
  have written (n) (h : n < chars.length) :
      m.get (address + BitVec.ofNat 32 n) = BitVec.ofNat 32 chars[n].toNat := by
    apply held
    rw [List.getElem?_append_left h, List.getElem?_eq_getElem h]
  obtain ⟨n, _, found, nonzero, read⟩ := m.exists_readText_eq address ⟨_, zero⟩
  have first : n = chars.length := by
    rcases Nat.lt_trichotomy n chars.length with earlier | same | later
    · rw [written n earlier] at found
      exact absurd found (ofNat_char_ne_zero (shown _ (List.getElem_mem earlier)))
    · exact same
    · exact absurd zero (nonzero _ later)
  subst first
  rw [read]
  congr 1
  apply List.ext_getElem
  · simp
  · intro n _ h
    rw [List.getElem_map, List.getElem_range, written n h, charOf_ofNat]

end Memory

end Mips
