import Mathlib.Data.List.Forall2
import Mathlib.Data.List.Induction
import Mathlib.Data.Nat.Digits.Defs
import Mips.Proofs.LowerCase

/-!
# Values of numerals

The digits of a numeral denote the sum of their place values. A numeral is read as the number that
it denotes if this is below the bound, and is too big if not, however many digits it has. Numbers
are written with the digits that denote them, in small letters.
-/
namespace Mips.Numeral

/-- The character is the digit of value `d`. Letters may have either case. -/
def IsDigit (base : Nat) (c : Char) (d : Nat) : Prop :=
  d < base ∧ c.toLower = Nat.digitChar d

instance (base : Nat) (c : Char) (d : Nat) : Decidable (IsDigit base c d) :=
  inferInstanceAs (Decidable (_ ∧ _))

def decimalDigits : List Char :=
  "0123456789".toList

def hexDigits : List Char :=
  "0123456789abcdefABCDEF".toList

/-- The characters are digits, the last one of place value one, and `n` is the sum of their
values. -/
def Denotes (base : Nat) (text : List Char) (n : Nat) : Prop :=
  ∃ digits, List.Forall₂ (IsDigit base) text.reverse digits ∧ n = Nat.ofDigits base digits

variable {base bound value n d : Nat} {c : Char} {text : List Char} {digits : List Nat}

theorem digitValue?_digitChar (most : base ≤ 16) (digit : d < base) :
    digitValue? base (Nat.digitChar d) = some d := by
  have all : ∀ b < 17, ∀ d < b, digitValue? b (Nat.digitChar d) = some d := by decide
  exact all base (Nat.lt_succ_of_le most) d digit

theorem isDigit_digitChar (most : base ≤ 16) (digit : d < base) :
    IsDigit base (Nat.digitChar d) d := by
  have lower : ∀ d < 16, (Nat.digitChar d).toLower = Nat.digitChar d := by decide
  exact ⟨digit, lower d (Nat.lt_of_lt_of_le digit most)⟩

theorem exists_isDigit_iff {chars : List Char}
    (digits : chars.all
      (fun e => (List.range base).any fun d => e.toLower = Nat.digitChar d) = true)
    (small : ∀ d < base, Nat.digitChar d ∈ chars)
    (capital : Text.upperLetters.all
      (fun e => e ∈ chars ∨ ∀ d < base, e.toLower ≠ Nat.digitChar d) = true) :
    (∃ d, IsDigit base c d) ↔ c ∈ chars := by
  constructor
  · rintro ⟨d, less, same⟩
    rcases Text.toLower_eq_or_mem c with kept | letter
    · rw [← kept, same]
      exact small d less
    · have known := of_decide_eq_true (List.all_eq_true.1 capital c letter)
      exact known.resolve_right fun other => other d less same
  · intro member
    obtain ⟨d, less, same⟩ := List.any_eq_true.1 (List.all_eq_true.1 digits c member)
    exact ⟨d, List.mem_range.1 less, of_decide_eq_true same⟩

theorem exists_isDigit_decimal : (∃ d, IsDigit 10 c d) ↔ c ∈ decimalDigits :=
  exists_isDigit_iff (by decide) (by decide) (by decide)

theorem exists_isDigit_hex : (∃ d, IsDigit 16 c d) ↔ c ∈ hexDigits :=
  exists_isDigit_iff (by decide) (by decide) (by decide)

theorem toLower_eq_digitChar (c : Char) :
    (c.isDigit = true → c.toLower = Nat.digitChar (c.toNat - '0'.toNat)) ∧
    ('a' ≤ c → c ≤ 'f' → c.toLower = Nat.digitChar (c.toNat - 'a'.toNat + 10)) ∧
    ('A' ≤ c → c ≤ 'F' → c.toLower = Nat.digitChar (c.toNat - 'A'.toNat + 10)) := by
  have table : ∀ k < 103,
      (48 ≤ k → k ≤ 57 → (Char.ofNat k).toLower = Nat.digitChar (k - 48)) ∧
      (97 ≤ k → (Char.ofNat k).toLower = Nat.digitChar (k - 97 + 10)) ∧
      (65 ≤ k → k ≤ 70 → (Char.ofNat k).toLower = Nat.digitChar (k - 65 + 10)) := by decide
  have code := table c.toNat
  rw [Char.ofNat_toNat] at code
  simp only [Char.isDigit, Bool.and_eq_true, decide_eq_true_eq, Char.le_def, ge_iff_le,
    UInt32.le_iff_toNat_le, Char.reduceVal, UInt32.reduceToNat]
  refine ⟨fun ⟨least, most⟩ => ?_, fun least most => ?_, fun least most => ?_⟩
  · exact (code (Nat.lt_of_le_of_lt most (by decide))).1 least most
  · exact (code (Nat.lt_of_le_of_lt most (by decide))).2.1 least
  · exact (code (Nat.lt_of_le_of_lt most (by decide))).2.2 least most

theorem digitValue?_eq_some (most : base ≤ 16) :
    digitValue? base c = some d ↔ IsDigit base c d := by
  constructor
  · intro found
    obtain ⟨decimal, small, capital⟩ := toLower_eq_digitChar c
    unfold digitValue? at found
    rw [Option.ite_none_right_eq_some, Option.some_inj] at found
    obtain ⟨less, same⟩ := found
    rw [same] at less
    refine ⟨less, ?_⟩
    split_ifs at same with isDecimal isSmall isCapital
    · rw [decimal isDecimal, same]
    · rw [Bool.and_eq_true, decide_eq_true_eq, decide_eq_true_eq] at isSmall
      rw [small isSmall.1 isSmall.2, same]
    · rw [Bool.and_eq_true, decide_eq_true_eq, decide_eq_true_eq] at isCapital
      rw [capital isCapital.1 isCapital.2, same]
    · exact absurd same (Nat.ne_of_gt less)
  · rintro ⟨digit, lower⟩
    rw [← Text.digitValue?_toLower, lower, digitValue?_digitChar most digit]

/-- Digits go on with a numeral just as long as its value is below the bound. The value only grows,
so that it is too big at the end if it is before. -/
theorem readFrom_of_digits (most : base ≤ 16) (h : List.Forall₂ (IsDigit base) text digits)
    (small : value < bound) : readFrom base bound value text =
      if value * base ^ digits.length + Nat.ofDigits base digits.reverse < bound then
        .ok (value * base ^ digits.length + Nat.ofDigits base digits.reverse)
      else .error .tooBig := by
  induction h generalizing value with
  | nil => simp [readFrom, small]
  | @cons c d text digits digit _ ih =>
    have total : value * base ^ (d :: digits).length + Nat.ofDigits base (d :: digits).reverse =
        (value * base + d) * base ^ digits.length + Nat.ofDigits base digits.reverse := by
      rw [Nat.ofDigits_reverse_cons, List.length_cons]
      ring
    rw [readFrom, (digitValue?_eq_some most).2 digit, total]
    dsimp only
    split
    next within => exact ih within
    next beyond =>
      have grows : value * base + d ≤ (value * base + d) * base ^ digits.length :=
        Nat.le_mul_of_pos_right _ (Nat.pow_pos (Nat.zero_lt_of_lt digit.1))
      rw [if_neg (by omega)]

theorem denotes_of_digits (h : List.Forall₂ (IsDigit base) text digits) :
    Denotes base text (Nat.ofDigits base digits.reverse) :=
  ⟨digits.reverse, List.rel_reverse h, rfl⟩

theorem Denotes.exists_digits (h : Denotes base text n) :
    ∃ digits, List.Forall₂ (IsDigit base) text digits ∧ n = Nat.ofDigits base digits.reverse := by
  obtain ⟨digits, all, rfl⟩ := h
  have forward := List.rel_reverse all
  rw [List.reverse_reverse] at forward
  exact ⟨digits.reverse, forward, by rw [List.reverse_reverse]⟩

theorem Denotes.exists_isDigit (h : Denotes base text n) : ∀ c ∈ text, ∃ d, IsDigit base c d := by
  obtain ⟨digits, all, -⟩ := h.exists_digits
  clear h
  induction all with
  | nil => nofun
  | cons digit _ ih => exact List.forall_mem_cons.2 ⟨⟨_, digit⟩, ih⟩

theorem exists_denotes (all : ∀ c ∈ text, ∃ d, IsDigit base c d) : ∃ n, Denotes base text n := by
  have digits : ∃ digits, List.Forall₂ (IsDigit base) text digits := by
    induction text with
    | nil => exact ⟨[], .nil⟩
    | cons c text ih =>
      obtain ⟨⟨d, digit⟩, others⟩ := List.forall_mem_cons.1 all
      obtain ⟨digits, rest⟩ := ih others
      exact ⟨d :: digits, .cons digit rest⟩
  obtain ⟨digits, same⟩ := digits
  exact ⟨_, denotes_of_digits same⟩

theorem read_of_denotes (most : base ≤ 16) (positive : 0 < bound) (some : text ≠ [])
    (h : Denotes base text n) :
    read base bound text = if n < bound then .ok n else .error .tooBig := by
  obtain ⟨digits, all, rfl⟩ := h.exists_digits
  obtain ⟨c, rest, rfl⟩ := List.exists_cons_of_ne_nil some
  rw [read, readFrom_of_digits most all positive, Nat.zero_mul, Nat.zero_add]
  nofun

theorem exists_digits_of_readFrom (most : base ≤ 16)
    (h : readFrom base bound value text = .ok n) :
    ∃ digits, List.Forall₂ (IsDigit base) text digits := by
  fun_induction readFrom base bound value text with
  | case1 => exact ⟨[], .nil⟩
  | case2 | case4 => cases h
  | case3 value c rest d found next small ih =>
    obtain ⟨digits, others⟩ := ih h
    exact ⟨d :: digits, .cons ((digitValue?_eq_some most).1 found) others⟩

/-- What is read is denoted and below the bound. -/
theorem read_eq_ok (most : base ≤ 16) (positive : 0 < bound) :
    read base bound text = .ok n ↔ text ≠ [] ∧ Denotes base text n ∧ n < bound := by
  constructor
  · intro read
    have some : text ≠ [] := by
      rintro rfl
      cases read
    obtain ⟨c, rest, rfl⟩ := List.exists_cons_of_ne_nil some
    obtain ⟨digits, all⟩ := exists_digits_of_readFrom most read
    have denotes := denotes_of_digits all
    rw [read_of_denotes most positive some denotes] at read
    split at read
    next small =>
      cases read
      exact ⟨some, denotes, small⟩
    next => cases read
  · rintro ⟨some, denotes, small⟩
    rw [read_of_denotes most positive some denotes, if_pos small]

namespace Denotes

/-- Both numbers are read from the text below a bound for both. -/
theorem unique {m : Nat} (most : base ≤ 16) (some : text ≠ []) (h : Denotes base text n)
    (h' : Denotes base text m) : n = m := by
  have positive : 0 < n + m + 1 := Nat.succ_pos _
  have read := (read_eq_ok most positive).2 ⟨some, h, by omega⟩
  rw [(read_eq_ok most positive).2 ⟨some, h', by omega⟩] at read
  exact (Except.ok.inj read).symm

theorem nil : Denotes base [] 0 :=
  ⟨[], .nil, rfl⟩

/-- One more digit multiplies what the others denote. -/
theorem concat_iff : Denotes base (text ++ [c]) n ↔
    ∃ m d, Denotes base text m ∧ IsDigit base c d ∧ n = m * base + d := by
  unfold Denotes
  rw [List.reverse_append, List.reverse_singleton, List.singleton_append]
  constructor
  · rintro ⟨digits, all, rfl⟩
    obtain _ | ⟨digit, others⟩ := all
    refine ⟨_, _, ⟨_, others, rfl⟩, digit, ?_⟩
    rw [Nat.ofDigits_cons, Nat.add_comm, Nat.mul_comm]
  · rintro ⟨m, d, ⟨digits, others, rfl⟩, digit, rfl⟩
    refine ⟨_, .cons digit others, ?_⟩
    rw [Nat.ofDigits_cons, Nat.add_comm, Nat.mul_comm]

theorem lt_pow (h : Denotes base text n) : n < base ^ text.length := by
  induction text using List.reverseRecOn generalizing n with
  | nil =>
    obtain ⟨digits, none, rfl⟩ := h
    cases none
    exact Nat.one_pos
  | append_singleton text c ih =>
    obtain ⟨m, d, others, digit, rfl⟩ := concat_iff.1 h
    rw [List.length_append, List.length_singleton, Nat.pow_succ]
    calc m * base + d < m * base + base := Nat.add_lt_add_left digit.1 _
      _ = (m + 1) * base := (Nat.succ_mul m base).symm
      _ ≤ base ^ text.length * base := Nat.mul_le_mul_right base (ih others)

theorem zero_cons_iff (positive : 0 < base) (most : base ≤ 16) :
    Denotes base ('0' :: text) n ↔ Denotes base text n := by
  have zero : IsDigit base '0' 0 := ⟨positive, rfl⟩
  constructor
  · intro h
    obtain ⟨digits, all, rfl⟩ := h.exists_digits
    obtain _ | ⟨digit, others⟩ := all
    have value := (digitValue?_eq_some most).2 digit
    rw [(digitValue?_eq_some most).2 zero] at value
    cases value
    rw [Nat.ofDigits_reverse_zero_cons]
    exact denotes_of_digits others
  · intro h
    obtain ⟨digits, all, rfl⟩ := h.exists_digits
    rw [← Nat.ofDigits_reverse_zero_cons]
    exact denotes_of_digits (.cons zero all)

end Denotes

/-- The digits with which a number is written in a fixed width denote it if it is small enough. -/
theorem denotes_fixedDigits {width : Nat} (positive : 0 < base) (most : base ≤ 16)
    (small : n < base ^ width) : Denotes base (fixedDigits base width n) n := by
  induction width generalizing n with
  | zero =>
    obtain rfl := Nat.lt_one_iff.1 small
    exact .nil
  | succ width ih =>
    have last : n % base < base := Nat.mod_lt n positive
    have others : n / base < base ^ width := by
      rw [Nat.div_lt_iff_lt_mul positive]
      rwa [Nat.pow_succ] at small
    exact Denotes.concat_iff.2 ⟨_, _, ih others, isDigit_digitChar most last,
      (Nat.div_add_mod' n base).symm⟩

/-- A number is written in a fixed width with the digits that denote it, in small letters. -/
theorem fixedDigits_of_denotes (h : Denotes base text n) :
    fixedDigits base text.length n = text.map Char.toLower := by
  induction text using List.reverseRecOn generalizing n with
  | nil => rfl
  | append_singleton text c ih =>
    obtain ⟨m, d, others, ⟨less, lower⟩, rfl⟩ := Denotes.concat_iff.1 h
    have quotient : (m * base + d) / base = m := by
      rw [Nat.mul_comm, Nat.mul_add_div (Nat.zero_lt_of_lt less), Nat.div_eq_of_lt less,
        Nat.add_zero]
    have remainder : (m * base + d) % base = d := by
      rw [Nat.mul_comm, Nat.mul_add_mod, Nat.mod_eq_of_lt less]
    rw [List.length_append, List.length_singleton, fixedDigits, quotient, remainder, ih others,
      List.map_append, List.map_singleton, lower]

/-- The digits of a number denote it. The induction takes off the last digit. -/
theorem denotes_toDigits (least : 1 < base) (most : base ≤ 16) :
    Denotes base (Nat.toDigits base n) n := by
  induction n using Nat.strongRecOn with
  | ind n ih =>
    by_cases single : n < base
    · rw [Nat.toDigits_of_lt_base single]
      exact Denotes.concat_iff.2 ⟨0, n, .nil, isDigit_digitChar most single, by omega⟩
    · have shorter : n / base < n := Nat.div_lt_self (by omega) least
      have last : n % base < base := Nat.mod_lt n (by omega)
      rw [Nat.toDigits_of_base_le least (by omega)]
      exact Denotes.concat_iff.2 ⟨_, _, ih _ shorter, isDigit_digitChar most last,
        (Nat.div_add_mod' n base).symm⟩

end Mips.Numeral
