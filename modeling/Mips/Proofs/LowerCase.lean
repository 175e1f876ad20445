import Mathlib.Tactic.IntervalCases
import Mips.Text.Bytes
import Mips.Text.Numeral
import Mips.Text.WordChar

/-!
# Characters in lower case

What is the same for the capital letters and their small ones is the same for all characters and
their lower case. So it is with the classes of characters, their lengths and their values as digits,
and hence with numerals.
-/
namespace Mips

namespace Text

def upperLetters : List Char :=
  "ABCDEFGHIJKLMNOPQRSTUVWXYZ".toList

theorem toLower_eq_or_mem (c : Char) : c.toLower = c ∨ c ∈ upperLetters := by
  unfold Char.toLower
  split
  next upper =>
    obtain ⟨least, most⟩ := upper
    have least : 65 ≤ c.toNat := UInt32.le_iff_toNat_le.1 least
    have most : c.toNat ≤ 90 := UInt32.le_iff_toNat_le.1 most
    refine .inr ?_
    rw [← Char.ofNat_toNat c]
    interval_cases c.toNat <;> decide
  next => exact .inl rfl

/-- What is the same for the capital letters is the same for all characters. -/
theorem apply_toLower {α : Type} {f : Char → α}
    (upper : (upperLetters.map fun c => f c.toLower) = upperLetters.map f) (c : Char) :
    f c.toLower = f c := by
  rcases toLower_eq_or_mem c with same | member
  · rw [same]
  · exact List.map_inj_left.1 upper c member

theorem isWordChar_toLower (c : Char) : isWordChar c.toLower = isWordChar c :=
  apply_toLower (by decide +kernel) c

theorem isNameStart_toLower (c : Char) : isNameStart c.toLower = isNameStart c :=
  apply_toLower (by decide) c

theorem isDigit_toLower (c : Char) : isDigit c.toLower = isDigit c :=
  apply_toLower (by decide +kernel) c

theorem charIsDigit_toLower (c : Char) : c.toLower.isDigit = c.isDigit :=
  apply_toLower (by decide) c

theorem isAlpha_toLower (c : Char) : c.toLower.isAlpha = c.isAlpha :=
  apply_toLower (by decide) c

theorem utf8Size_toLower (c : Char) : c.toLower.utf8Size = c.utf8Size :=
  apply_toLower (by decide) c

theorem digitValue?_toLower (base : Nat) (c : Char) :
    Numeral.digitValue? base c.toLower = Numeral.digitValue? base c :=
  apply_toLower rfl c

/-- Only letters have two cases. -/
theorem eq_of_toLower_eq {c d : Char} (same : c.toLower = d.toLower) (other : c.isAlpha = false) :
    d = c := by
  have letters := List.all_eq_true.1 (by decide : upperLetters.all Char.isAlpha = true)
  have kept : ∀ c : Char, c.isAlpha = false → c.toLower = c := fun c other =>
    (toLower_eq_or_mem c).resolve_right fun member => by simp [letters c member] at other
  have other' : d.isAlpha = false := by rw [← isAlpha_toLower, ← same, isAlpha_toLower, other]
  rw [← kept c other, ← kept d other', same]

theorem exists_cons_of_map_toLower {c : Char} {text text' : List Char}
    (same : (c :: text).map Char.toLower = text'.map Char.toLower) (other : c.isAlpha = false) :
    ∃ rest, text' = c :: rest ∧ text.map Char.toLower = rest.map Char.toLower := by
  obtain ⟨d, rest, rfl, first, others⟩ := List.map_eq_cons_iff.1 same.symm
  rw [eq_of_toLower_eq first.symm other]
  exact ⟨rest, rfl, others.symm⟩

theorem eq_of_map_toLower {text text' : List Char}
    (same : text.map Char.toLower = text'.map Char.toLower)
    (others : text.any Char.isAlpha = false) : text' = text := by
  induction text generalizing text' with
  | nil => exact List.map_eq_nil_iff.1 same.symm
  | cons c text ih =>
    rw [List.any_cons, Bool.or_eq_false_iff] at others
    obtain ⟨first, rest⟩ := others
    obtain ⟨others, rfl, tail⟩ := exists_cons_of_map_toLower same first
    rw [ih tail rest]

theorem byteLength_map_toLower (text : List Char) :
    byteLength (text.map Char.toLower) = byteLength text := by
  induction text with
  | nil => rfl
  | cons c text ih => rw [List.map_cons, byteLength_cons, byteLength_cons, ih, utf8Size_toLower]

theorem forall_of_map_toLower {p : Char → Bool} (apply : ∀ c : Char, p c.toLower = p c)
    {text text' : List Char} (same : text.map Char.toLower = text'.map Char.toLower)
    (all : ∀ c ∈ text, p c = true) : ∀ c ∈ text', p c = true := by
  have lower : ∀ c ∈ text'.map Char.toLower, p c = true := by
    rw [← same]
    exact List.forall_mem_map.2 fun c member => (apply c).trans (all c member)
  exact fun c member => (apply c).symm.trans (lower _ (List.mem_map_of_mem member))

end Text

theorem Numeral.readFrom_map_toLower (base bound value : Nat) (text : List Char) :
    readFrom base bound value (text.map Char.toLower) = readFrom base bound value text := by
  induction text generalizing value with
  | nil => rfl
  | cons c text ih =>
    rw [List.map_cons, readFrom, readFrom, Text.digitValue?_toLower]
    split
    · rfl
    · dsimp only
      rw [ih]

theorem Numeral.read_map_toLower (base bound : Nat) (text : List Char) :
    read base bound (text.map Char.toLower) = read base bound text := by
  cases text with
  | nil => rfl
  | cons c text => exact readFrom_map_toLower base bound 0 (c :: text)

end Mips
