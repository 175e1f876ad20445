import Mathlib.Data.List.TakeWhile
import Mips.Proofs.MemoryText

/-!
# Stored texts

A text that is written to memory is read back up to its first zero character, from its beginning or
from any of its characters on, also where its cells go on at the lowest address behind the highest
one. All other cells are left as they were. Reading comes to an end from every address if any cell
is zero, whatever the others hold.
-/
namespace Mips.Memory

/-- The cell shows the character whose code it holds, or the one that stands for no character. -/
def Shows (value : Word) (c : Char) : Prop :=
  c.toNat = value.toNat ∨ (∀ d : Char, d.toNat ≠ value.toNat) ∧ c = '\ufffd'

/-- Reading from the address on comes to an end, and each cell before the first zero shows one of
the characters. -/
inductive Reads (m : Memory) : Word → List Char → Prop
  | stop {address : Word} : m.get address = 0 → Reads m address []
  | next {address : Word} {c : Char} {chars : List Char} : m.get address ≠ 0 →
      Shows (m.get address) c → Reads m (address + 1) chars → Reads m address (c :: chars)

theorem shows_charOf (value : Word) : Shows value (charOf value) := by
  unfold charOf
  split
  next valid =>
    rw [Char.ofNat, dif_pos valid]
    exact .inl rfl
  next invalid => exact .inr ⟨fun d same => invalid (same ▸ d.valid), rfl⟩

variable {m : Memory} {address other : Word} {chars : List Char}

theorem reads_of_first_zero {n : Nat} (zero : m.get (address + BitVec.ofNat 32 n) = 0)
    (nonzero : ∀ k < n, m.get (address + BitVec.ofNat 32 k) ≠ 0) : m.Reads address
      ((List.range n).map fun k => charOf (m.get (address + BitVec.ofNat 32 k))) := by
  induction n generalizing address with
  | zero => exact .stop (by simpa using zero)
  | succ n ih =>
    have next := add_one_add_ofNat address
    have here : m.get address ≠ 0 := by simpa using nonzero 0 (Nat.succ_pos n)
    have others := ih (by rwa [next]) fun k hk => by
      rw [next]
      exact nonzero _ (Nat.succ_lt_succ hk)
    simp only [next] at others
    simp only [List.range_succ_eq_map, List.map_cons, List.map_map, Function.comp_def,
      BitVec.add_zero]
    exact .next here (shows_charOf _) others

theorem reads_readText (m : Memory) (zero : ∃ a, m.get a = 0) (address : Word) :
    m.Reads address (m.readText address).toList := by
  obtain ⟨n, -, found, before, read⟩ := m.exists_readText_eq address zero
  rw [read, String.toList_ofList]
  exact reads_of_first_zero found before

/-- Only the cells of the characters are written. -/
theorem get_writeChars_of_ne (outside : ∀ k < chars.length, other ≠ address + BitVec.ofNat 32 k) :
    (m.writeChars address chars).1.get other = m.get other := by
  induction chars generalizing m address with
  | nil => rfl
  | cons c rest ih =>
    have first : address ≠ other := by simpa [eq_comm] using outside 0 (Nat.succ_pos _)
    rw [writeChars, ih fun k hk => ?_, get_set, if_neg first]
    rw [add_one_add_ofNat]
    exact outside (k + 1) (Nat.succ_lt_succ hk)

theorem get_writeChars {n : Nat} {c : Char} (room : chars.length ≤ 2 ^ 32)
    (found : chars[n]? = some c) :
    (m.writeChars address chars).1.get (address + BitVec.ofNat 32 n) = BitVec.ofNat 32 c.toNat := by
  induction chars generalizing m address n with
  | nil => cases found
  | cons d rest ih =>
    rw [List.length_cons] at room
    cases n with
    | zero =>
      cases found
      have kept : ∀ k < rest.length, address ≠ address + 1 + BitVec.ofNat 32 k := by
        intro k hk same
        rw [add_one_add_ofNat] at same
        have := ofNat_add_inj address (j := 0) (k := k + 1) (by omega) (by omega)
          (by simpa using same)
        omega
      rw [BitVec.add_zero, writeChars, get_writeChars_of_ne kept, get_set, if_pos rfl]
    | succ n =>
      rw [writeChars, ← add_one_add_ofNat]
      exact ih (by omega) found

/-- The text is read back from each of its characters on, up to the first zero among them. -/
theorem readText_writeText_from {text : String} {k : Nat} (room : text.length < 2 ^ 32)
    (inside : k ≤ text.length) :
    (m.writeText address text).1.readText (address + BitVec.ofNat 32 k) =
      String.ofList ((text.toList.drop k).takeWhile (· ≠ '\x00')) := by
  rw [← String.length_toList] at room inside
  apply readText_of_cells
  · intro c hc
    simpa using List.mem_takeWhile_imp hc
  · intro n c hn
    obtain ⟨within, rfl⟩ := List.getElem?_eq_some_iff.1 hn
    have shown := takeWhile_concat_isPrefix (text.toList.drop k) '\x00'
    have found := List.prefix_iff_getElem?.1 shown n within
    rw [← List.drop_append_of_le_length inside, List.getElem?_drop] at found
    rw [BitVec.add_assoc, ← BitVec.ofNat_add]
    exact get_writeChars (by simpa using Nat.succ_le_of_lt room) found

/-- A text is read back as it was written, from each of its characters on and wherever it was
written, and no other cell is changed by it. Reading ends from every address if any cell is zero. -/
theorem texts_read_back :
    (∀ (m : Memory) (address : Word) (text : String), text.length < 2 ^ 32 - 1 →
      (m.writeText address text).1.readText address =
        String.ofList (text.toList.takeWhile (· ≠ '\x00')) ∧
      (∀ k ≤ text.length, (m.writeText address text).1.readText (address + BitVec.ofNat 32 k) =
        String.ofList ((text.toList.drop k).takeWhile (· ≠ '\x00'))) ∧
      (m.writeText address text).2 = address + BitVec.ofNat 32 (text.length + 1) ∧
      ∀ other, (∀ k ≤ text.length, other ≠ address + BitVec.ofNat 32 k) →
        (m.writeText address text).1.get other = m.get other) ∧
    ∀ m : Memory, (∃ a, m.get a = 0) → ∀ address, m.Reads address (m.readText address).toList := by
  refine ⟨fun m address text room => ⟨?_, fun k inside => ?_, ?_, fun other outside => ?_⟩,
    reads_readText⟩
  · have whole : (m.writeText address text).1.readText (address + BitVec.ofNat 32 0) = _ :=
      readText_writeText_from (Nat.lt_of_lt_of_le room (Nat.sub_le ..)) (Nat.zero_le text.length)
    rwa [BitVec.add_zero, List.drop_zero] at whole
  · exact readText_writeText_from (Nat.lt_of_lt_of_le room (Nat.sub_le ..)) inside
  · rw [writeText, writeChars_snd, List.length_append, String.length_toList, List.length_singleton]
  · refine get_writeChars_of_ne fun k hk => outside k ?_
    rw [List.length_append, String.length_toList, List.length_singleton] at hk
    exact Nat.le_of_lt_succ hk

/-- A cell with no character, right before the text that is written. -/
def worn : Memory :=
  empty.set 0xFFFFFFFD (-1)

/-- The text goes on at the lowest address, and holds a zero character. -/
theorem texts_read_back_wrapping :
    let stored := (worn.writeText 0xFFFFFFFE "hé€\x00!").1
    stored.readText 0xFFFFFFFE = "hé€" ∧ stored.readText 0 = "€" ∧ stored.readText 2 = "!" ∧
      (worn.writeText 0xFFFFFFFE "hé€\x00!").2 = 4 ∧ stored.get 0xFFFFFFFD = -1 ∧
        ∃ a, stored.get a = 0 ∧ stored.Reads 0xFFFFFFFD "\ufffdhé€".toList := by
  intro stored
  obtain ⟨whole, later, stop, others⟩ := texts_read_back.1 worn 0xFFFFFFFE "hé€\x00!" (by decide)
  have ended : stored.get 1 = 0 := by decide +kernel
  have front : stored.readText 0xFFFFFFFD = "\ufffdhé€" := by decide +kernel
  refine ⟨whole, later 2 (by decide), later 4 (by decide), stop, ?_, 1, ended, ?_⟩
  · rw [others 0xFFFFFFFD (by decide +kernel)]
    rfl
  · rw [← front]
    exact texts_read_back.2 stored ⟨1, ended⟩ 0xFFFFFFFD

end Mips.Memory
