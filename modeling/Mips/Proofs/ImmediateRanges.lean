import Mathlib.Data.Int.ModEq
import Mips.Immediate

/-!
# Numbers that fit a field

A field keeps the low bits of a word. What is read back from it is the one number in the range of
the field that is congruent to the word, so that a word fits exactly if its own number is in the
range.
-/
namespace Mips.Extension

/-- A field of `bits` bits holds the number, in two's complement or without a sign. -/
def Holds (e : Extension) (bits : Nat) (z : Int) : Prop :=
  match e with
  | signed => -2 ^ (bits - 1) ≤ z ∧ z ≤ 2 ^ (bits - 1) - 1
  | unsigned => 0 ≤ z ∧ z ≤ 2 ^ bits - 1

variable {e : Extension} {bits : Nat} {y z : Int} {v w : Word}

/-- The range has fewer numbers than there are between two congruent ones. -/
theorem Holds.eq_of_modEq (least : 1 ≤ bits) (first : e.Holds bits y) (second : e.Holds bits z)
    (same : y ≡ z [ZMOD 2 ^ bits]) : y = z := by
  have halves : (2 : Int) ^ bits = 2 ^ (bits - 1) + 2 ^ (bits - 1) := by
    obtain ⟨below, rfl⟩ := Nat.exists_eq_add_of_le' least
    rw [Nat.add_sub_cancel, pow_succ, mul_two]
  have apart : |y - z| < 2 ^ bits := by
    rw [abs_lt]
    cases e with
    | signed =>
      obtain ⟨⟨_, _⟩, _, _⟩ := And.intro first second
      omega
    | unsigned =>
      obtain ⟨⟨_, _⟩, _, _⟩ := And.intro first second
      omega
  exact Int.sub_eq_zero.1 (Int.eq_zero_of_abs_lt_dvd same.symm.dvd apart)

theorem value_inj : e.value v = e.value w ↔ v = w := by
  cases e with
  | signed => exact BitVec.toInt_inj
  | unsigned => exact Int.ofNat_inj.trans BitVec.toNat_inj

theorem value_signed_narrow (most : bits ≤ 32) :
    signed.value (signed.narrow bits w) = (w.setWidth bits).toInt :=
  BitVec.toInt_signExtend_of_le most

theorem value_unsigned_narrow (most : bits ≤ 32) :
    unsigned.value (unsigned.narrow bits w) = (w.setWidth bits).toNat := by
  have small : (w.setWidth bits).toNat < 2 ^ 32 :=
    Nat.lt_of_lt_of_le (w.setWidth bits).isLt (Nat.pow_le_pow_right Nat.two_pos most)
  rw [value, narrow, BitVec.toNat_setWidth, Nat.mod_eq_of_lt small]

theorem holds_narrow (most : bits ≤ 32) : e.Holds bits (e.value (e.narrow bits w)) := by
  cases e with
  | signed =>
    rw [value_signed_narrow most]
    have below := (w.setWidth bits).toInt_lt
    exact ⟨BitVec.le_toInt _, Int.le_sub_one_of_lt below⟩
  | unsigned =>
    rw [value_unsigned_narrow most]
    have below := (w.setWidth bits).isLt
    exact ⟨Int.natCast_nonneg _, Int.le_sub_one_of_lt (by exact_mod_cast below)⟩

/-- The bits that are left out count multiples of what the field can tell apart. -/
theorem narrow_modEq (most : bits ≤ 32) :
    e.value (e.narrow bits w) ≡ e.value w [ZMOD 2 ^ bits] := by
  cases e with
  | signed =>
    rw [value_signed_narrow most, value, w.toInt_eq_toNat_bmod, BitVec.toInt_setWidth]
    have field : Int.bmod w.toNat (2 ^ bits) ≡ w.toNat [ZMOD (2 ^ bits : Nat)] := Int.bmod_emod
    have whole : Int.bmod w.toNat (2 ^ 32) ≡ w.toNat [ZMOD (2 ^ 32 : Nat)] := Int.bmod_emod
    have divides : ((2 ^ bits : Nat) : Int) ∣ (2 ^ 32 : Nat) :=
      Int.natCast_dvd_natCast.2 (Nat.pow_dvd_pow 2 most)
    exact_mod_cast field.trans (whole.of_dvd divides).symm
  | unsigned =>
    rw [value_unsigned_narrow most, value, BitVec.toNat_setWidth, Int.natCast_mod, Int.natCast_pow]
    exact Int.mod_modEq ..

/-- Moving the field to the top of the word and back does the same: moving back repeats the sign bit
or fills with zeros. -/
theorem narrow_eq_shifts (most : bits ≤ 32) : e.narrow bits w = match e with
    | signed => (w <<< (32 - bits)).sshiftRight (32 - bits)
    | unsigned => w <<< (32 - bits) >>> (32 - bits) := by
  cases e with
  | signed =>
    refine BitVec.eq_of_getLsbD_eq fun i inside => ?_
    simp only [narrow, BitVec.getLsbD_signExtend, BitVec.getLsbD_sshiftRight,
      BitVec.getLsbD_setWidth, BitVec.getLsbD_shiftLeft, BitVec.msb_eq_getLsbD_last]
    by_cases field : i < bits
    · have moved : 32 - bits + i < 32 := by omega
      have within : ¬32 - bits + i < 32 - bits := by omega
      have other : ¬32 ≤ i := by omega
      simp [inside, field, moved, within, other]
    · have beyond : ¬32 - bits + i < 32 := by omega
      have other : ¬32 ≤ i := by omega
      have top : 32 - 1 - (32 - bits) = bits - 1 := by omega
      have nonempty : bits - 1 < bits ↔ ¬32 - 1 < 32 - bits := by omega
      simp only [inside, field, beyond, other, top, nonempty, if_false, decide_true, decide_false,
        decide_not, Bool.true_and, Bool.not_false, Nat.reduceSub, Nat.reduceLT]
  | unsigned =>
    refine BitVec.eq_of_getLsbD_eq fun i inside => ?_
    simp only [narrow, BitVec.getLsbD_setWidth, BitVec.getLsbD_ushiftRight,
      BitVec.getLsbD_shiftLeft]
    by_cases field : i < bits
    · have moved : 32 - bits + i < 32 := by omega
      simp [inside, field, moved]
    · have beyond : ¬32 - bits + i < 32 := by omega
      simp [field, beyond]

theorem eq_narrow_iff (least : 1 ≤ bits) (most : bits ≤ 32) :
    z = e.value (e.narrow bits w) ↔ e.Holds bits z ∧ z ≡ e.value w [ZMOD 2 ^ bits] := by
  constructor
  · rintro rfl
    exact ⟨holds_narrow most, narrow_modEq most⟩
  · rintro ⟨holds, congruent⟩
    exact holds.eq_of_modEq least (holds_narrow most) (congruent.trans (narrow_modEq most).symm)

theorem narrow_eq_self_iff (least : 1 ≤ bits) (most : bits ≤ 32) :
    e.narrow bits w = w ↔ e.Holds bits (e.value w) := by
  rw [← value_inj (e := e), eq_comm, eq_narrow_iff least most]
  exact and_iff_left rfl

/-- A field of up to 32 bits makes of a word the only number in its range that is congruent to the
word. It takes a word as it is if the word's number is in the range, and refuses it if not. -/
theorem fields_hold_ranges (e : Extension) {bits : Nat} (least : 1 ≤ bits) (most : bits ≤ 32)
    (w : Word) :
    (∀ z, z = e.value (e.narrow bits w) ↔ e.Holds bits z ∧ z ≡ e.value w [ZMOD 2 ^ bits]) ∧
    (∀ v, e.fit bits w = .ok v ↔ e.Holds bits (e.value w) ∧ v = w) ∧
    ∀ error, e.fit bits w = .error error ↔ ¬e.Holds bits (e.value w) ∧ error = ⟨e, bits⟩ := by
  refine ⟨fun z => eq_narrow_iff least most, fun v => ?_, fun error => ?_⟩
  · rw [fit, ← narrow_eq_self_iff least most]
    split
    next fits => simp [fits, eq_comm]
    next other => simp [other]
  · rw [fit, ← narrow_eq_self_iff least most]
    split
    next fits => simp [fits]
    next other => simp [other, eq_comm]

/-- The least number of 16 bits stands for a word with a further bit. The greatest word fits a field
of all bits. -/
theorem fields_hold_ranges_ends :
    signed.value (signed.narrow 16 0x18000) = -32768 ∧ signed.Holds 16 (-32768) ∧
      -32768 ≡ 0x18000 [ZMOD 2 ^ 16] ∧ signed.fit 16 0x18000 = .error ⟨signed, 16⟩ ∧
        unsigned.Holds 32 0xFFFFFFFF ∧ unsigned.fit 32 0xFFFFFFFF = .ok 0xFFFFFFFF := by
  obtain ⟨half, -, refused⟩ :=
    fields_hold_ranges signed (by decide : 1 ≤ 16) (by decide) 0x18000
  obtain ⟨-, taken, -⟩ :=
    fields_hold_ranges unsigned (by decide : 1 ≤ 32) (by decide) 0xFFFFFFFF
  have value : -32768 = signed.value (signed.narrow 16 0x18000) := by decide
  obtain ⟨holds, congruent⟩ := (half (-32768)).1 value
  have error : signed.fit 16 0x18000 = .error ⟨signed, 16⟩ :=
    (refused _).2 ⟨fun inside => absurd inside.2 (by decide), rfl⟩
  have greatest : unsigned.Holds 32 0xFFFFFFFF := ⟨by decide, by decide⟩
  exact ⟨value.symm, holds, congruent, error, greatest, (taken _).2 ⟨greatest, rfl⟩⟩

end Mips.Extension
