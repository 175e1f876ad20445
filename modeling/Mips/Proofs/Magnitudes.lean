import Mips.Proofs.Numerals
import Mips.Proofs.Spelling

/-!
# Magnitudes

A number without its sign is written with decimal digits, or with hexadecimal ones behind a prefix.
It is read as the number that its digits denote if this is in the range of its token, with a minus
sign or without, and is the error of this range if not. Only what is written like this is read.
-/
namespace Mips

/-- The text is the number `n` in decimal digits, or in hexadecimal ones with their prefix. -/
inductive Numeral.Magnitude : List Char → Nat → Prop
  | decimal {digits : List Char} {n : Nat} : digits ≠ [] → Denotes 10 digits n →
      Magnitude digits n
  | hex {x : Char} {digits : List Char} {n : Nat} : x = 'x' ∨ x = 'X' → digits ≠ [] →
      Denotes 16 digits n → Magnitude ('0' :: x :: digits) n

/-- Decimal digits, or hexadecimal ones with their prefix. -/
def Numeral.IsLiteral (text : List Char) : Prop :=
  text ≠ [] ∧ (∀ c ∈ text, c ∈ decimalDigits) ∨
    ∃ x digits, text = '0' :: x :: digits ∧ (x = 'x' ∨ x = 'X') ∧ digits ≠ [] ∧
      ∀ c ∈ digits, c ∈ hexDigits

namespace Numeral

variable {base n d : Nat} {c : Char} {text : List Char}

theorem IsDigit.isWordChar (most : base ≤ 16) (digit : IsDigit base c d) :
    Text.isWordChar c = true := by
  have all : ∀ d < 16, Text.isWordChar (Nat.digitChar d) = true := by decide
  rw [← Text.isWordChar_toLower, digit.2]
  exact all d (Nat.lt_of_lt_of_le digit.1 most)

theorem IsDigit.isDigit (digit : IsDigit 10 c d) : Text.isDigit c = true := by
  have all : ∀ d < 10, Text.isDigit (Nat.digitChar d) = true := by decide
  rw [← Text.isDigit_toLower, digit.2]
  exact all d digit.1

theorem Denotes.no_prefix (h : Denotes 10 text n) :
    ∀ x rest, text = '0' :: x :: rest → x ≠ 'x' ∧ x ≠ 'X' := by
  have letters : ∀ d < 10, Nat.digitChar d ≠ 'x' := by decide
  rintro x rest rfl
  obtain ⟨d, less, lower⟩ := h.exists_isDigit x (by simp)
  constructor
  · rintro rfl
    exact letters d less lower.symm
  · rintro rfl
    exact letters d less lower.symm

namespace Magnitude

theorem isWordChar (h : Magnitude text n) : ∀ c ∈ text, Text.isWordChar c = true := by
  cases h with
  | decimal _ denotes =>
    intro c member
    obtain ⟨_, digit⟩ := denotes.exists_isDigit c member
    exact digit.isWordChar (by decide)
  | hex letter _ denotes =>
    refine List.forall_mem_cons.2 ⟨by decide, List.forall_mem_cons.2 ⟨?_, fun c member => ?_⟩⟩
    · rcases letter with rfl | rfl <;> decide
    · obtain ⟨_, digit⟩ := denotes.exists_isDigit c member
      exact digit.isWordChar (by decide)

theorem exists_cons (h : Magnitude text n) :
    ∃ c rest, text = c :: rest ∧ Text.isDigit c = true := by
  cases h with
  | decimal some denotes =>
    obtain ⟨c, rest, rfl⟩ := List.exists_cons_of_ne_nil some
    obtain ⟨_, digit⟩ := denotes.exists_isDigit c (by simp)
    exact ⟨c, rest, rfl, digit.isDigit⟩
  | hex => exact ⟨'0', _, rfl, by decide⟩

theorem unique {m : Nat} (h : Magnitude text n) (h' : Magnitude text m) : n = m := by
  cases h with
  | decimal some denotes =>
    cases h' with
    | decimal _ denotes' => exact denotes.unique (by decide) some denotes'
    | hex letter =>
      obtain ⟨small, capital⟩ := denotes.no_prefix _ _ rfl
      exact absurd letter (not_or.2 ⟨small, capital⟩)
  | hex letter some denotes =>
    cases h' with
    | decimal _ denotes' =>
      obtain ⟨small, capital⟩ := denotes'.no_prefix _ _ rfl
      exact absurd letter (not_or.2 ⟨small, capital⟩)
    | hex _ _ denotes' => exact denotes.unique (by decide) some denotes'

theorem exists_iff : (∃ n, Magnitude text n) ↔ IsLiteral text := by
  constructor
  · rintro ⟨n, magnitude⟩
    cases magnitude with
    | decimal some denotes =>
      exact .inl ⟨some, fun c member => exists_isDigit_decimal.1 (denotes.exists_isDigit c member)⟩
    | hex letter some denotes =>
      exact .inr ⟨_, _, rfl, letter, some,
        fun c member => exists_isDigit_hex.1 (denotes.exists_isDigit c member)⟩
  · rintro (⟨some, all⟩ | ⟨x, digits, rfl, letter, some, all⟩)
    · obtain ⟨n, denotes⟩ := exists_denotes fun c member => exists_isDigit_decimal.2 (all c member)
      exact ⟨n, .decimal some denotes⟩
    · obtain ⟨n, denotes⟩ := exists_denotes fun c member => exists_isDigit_hex.2 (all c member)
      exact ⟨n, .hex letter some denotes⟩

theorem of_toDigits (n : Nat) : Magnitude (Nat.toDigits 10 n) n :=
  .decimal (List.length_pos_iff.1 Nat.length_toDigits_pos)
    (denotes_toDigits (by decide) (by decide))

end Magnitude

end Numeral

open Numeral

namespace Reading

theorem magnitude_of_decimal {digits : List Char} (tooBig : LexError)
    (decimal : ∀ x rest, digits = '0' :: x :: rest → x ≠ 'x' ∧ x ≠ 'X') :
    magnitude digits tooBig = match Numeral.read 10 (1 <<< 32) digits with
      | .ok n => .ok n
      | .error .badDigit => .error .badDecimalDigit
      | .error .empty => .error .noDecimalDigits
      | .error .tooBig => .error tooBig := by
  unfold magnitude
  dsimp only
  split
  next rest => exact absurd rfl (decimal 'x' rest rfl).1
  next rest => exact absurd rfl (decimal 'X' rest rfl).2
  next => rfl

theorem magnitude_of_hex {x : Char} (letter : x = 'x' ∨ x = 'X') (digits : List Char)
    (tooBig : LexError) :
    magnitude ('0' :: x :: digits) tooBig = match Numeral.read 16 (1 <<< 32) digits with
      | .ok n => .ok n
      | .error .badDigit => .error .badHexDigit
      | .error .empty => .error .noHexDigits
      | .error .tooBig => .error tooBig := by
  rcases letter with rfl | rfl <;> rfl

variable {n : Nat} {text : List Char}

/-- A magnitude is read if it is in the range of its token. -/
theorem magnitude_eq (tooBig : LexError) (h : Magnitude text n) :
    magnitude text tooBig = if n < 1 <<< 32 then .ok n else .error tooBig := by
  cases h with
  | decimal some denotes =>
    rw [magnitude_of_decimal tooBig denotes.no_prefix,
      read_of_denotes (by decide) (by decide) some denotes]
    split_ifs <;> rfl
  | hex letter some denotes =>
    rw [magnitude_of_hex letter, read_of_denotes (by decide) (by decide) some denotes]
    split_ifs <;> rfl

theorem magnitude_of_eq_ok {tooBig : LexError} (read : magnitude text tooBig = .ok n) :
    Magnitude text n ∧ n < 1 <<< 32 := by
  by_cases decimal : ∀ x rest, text = '0' :: x :: rest → x ≠ 'x' ∧ x ≠ 'X'
  · rw [magnitude_of_decimal tooBig decimal] at read
    split at read
    next m value =>
      cases read
      obtain ⟨some, denotes, small⟩ := (read_eq_ok (by decide) (by decide)).1 value
      exact ⟨.decimal some denotes, small⟩
    all_goals cases read
  · simp only [not_forall, not_and_or, not_not] at decimal
    obtain ⟨x, digits, rfl, letter⟩ := decimal
    rw [magnitude_of_hex letter] at read
    split at read
    next m value =>
      cases read
      obtain ⟨some, denotes, small⟩ := (read_eq_ok (by decide) (by decide)).1 value
      exact ⟨.hex letter some denotes, small⟩
    all_goals cases read

theorem unsigned_eq (h : Magnitude text n) : unsigned text =
    if n < 1 <<< 32 then .ok (.unsigned n) else .error .tooBigUnsigned := by
  rw [unsigned, magnitude_eq _ h]
  split_ifs <;> rfl

/-- A magnitude that is out of both ranges is out of the smaller one in any case. -/
theorem signed_eq (h : Magnitude text n) : signed text =
    if n ≤ 1 <<< 31 then .ok (.signed (-n)) else .error .tooBigSigned := by
  rw [signed, magnitude_eq _ h]
  by_cases small : n < 1 <<< 32
  · rw [if_pos small]
  · rw [if_neg small, if_neg fun least => small (Nat.lt_of_le_of_lt least (by decide))]

theorem unsigned_eq_ok {t : Token} : unsigned text = .ok t ↔
    ∃ n, Magnitude text n ∧ n < 1 <<< 32 ∧ t = .unsigned n := by
  constructor
  · intro read
    unfold unsigned at read
    split at read
    next n value =>
      cases read
      obtain ⟨magnitude, small⟩ := magnitude_of_eq_ok value
      exact ⟨n, magnitude, small, rfl⟩
    next => cases read
  · rintro ⟨n, magnitude, small, rfl⟩
    rw [unsigned_eq magnitude, if_pos small]

theorem signed_eq_ok {t : Token} : signed text = .ok t ↔
    ∃ n : Nat, Magnitude text n ∧ n ≤ 1 <<< 31 ∧ t = .signed (-n) := by
  constructor
  · intro read
    unfold signed at read
    split at read
    next n value =>
      split at read
      next least =>
        cases read
        exact ⟨n, (magnitude_of_eq_ok value).1, least, rfl⟩
      next => cases read
    next => cases read
  · rintro ⟨n, magnitude, least, rfl⟩
    rw [signed_eq magnitude, if_pos least]

end Reading

namespace Token

variable {n : Nat} {text : List Char}

theorem spelled_of_magnitude (magnitude : Magnitude text n) (small : n < 1 <<< 32) :
    Spelled text (.unsigned n) := by
  obtain ⟨c, rest, rfl, digit⟩ := magnitude.exists_cons
  have all := (List.forall_mem_cons.1 magnitude.isWordChar).2
  exact .unsigned digit all (Reading.unsigned_eq_ok.2 ⟨n, magnitude, small, rfl⟩)

theorem spelled_minus_of_magnitude (magnitude : Magnitude text n) (least : n ≤ 1 <<< 31) :
    Spelled ('-' :: text) (.signed (-n)) :=
  .signed magnitude.isWordChar (Reading.signed_eq_ok.2 ⟨n, magnitude, least, rfl⟩)

end Token

end Mips
