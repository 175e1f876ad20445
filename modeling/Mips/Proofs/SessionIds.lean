import Mips.Proofs.Numerals
import Mips.Session.Id

/-!
# Texts of session identifiers

An identifier is written with the 32 small digits that denote it, and no two are written alike. The
texts that are read are those of 32 digits in either case, where a plus sign in front counts as a
zero. What is read is written again with the same digits, and every other text is an error.
-/
namespace Mips

open Numeral

namespace Numeral

theorem exists_digitChar_of_mem_fixedDigits {base width n : Nat} (positive : 0 < base) {c : Char}
    (member : c ∈ fixedDigits base width n) : ∃ d < base, c = Nat.digitChar d := by
  induction width generalizing n with
  | zero => cases member
  | succ width ih =>
    rw [fixedDigits, List.mem_append, List.mem_singleton] at member
    rcases member with member | rfl
    · exact ih member
    · exact ⟨n % base, Nat.mod_lt n positive, rfl⟩

theorem byteLength_of_hexDigits {text : List Char} (all : ∀ c ∈ text, c ∈ hexDigits) :
    Text.byteLength text = text.length := by
  have single := List.all_eq_true.1 (by decide : hexDigits.all (fun c => c.utf8Size = 1) = true)
  induction text with
  | nil => rfl
  | cons c text ih =>
    obtain ⟨first, others⟩ := List.forall_mem_cons.1 all
    rw [Text.byteLength_cons, of_decide_eq_true (single c first), ih others, List.length_cons,
      Nat.add_comm]

end Numeral

namespace SessionId

/-- The characters with a zero in the place of a plus sign in front. -/
def plain : List Char → List Char
  | '+' :: digits => '0' :: digits
  | digits => digits

/-- The text has 32 digits, or a plus sign and 31 of them. -/
def WellFormed (text : String) : Prop :=
  (plain text.toList).length = 32 ∧ ∀ c ∈ plain text.toList, c ∈ hexDigits

variable {chars : List Char} {text : String} {id : SessionId} {n : Nat}

theorem plain_cases (chars : List Char) : plain chars = chars ∧ unsigned chars = chars ∨
    ∃ digits, chars = '+' :: digits ∧ plain chars = '0' :: digits ∧ unsigned chars = digits := by
  unfold plain
  split
  next digits => exact .inr ⟨digits, rfl, rfl, rfl⟩
  next other =>
    refine .inl ⟨rfl, ?_⟩
    unfold unsigned
    split
    next digits => exact absurd rfl (other digits)
    next => rfl

theorem byteLength_plain (chars : List Char) :
    Text.byteLength (plain chars) = Text.byteLength chars := by
  rcases plain_cases chars with ⟨same, -⟩ | ⟨digits, rfl, zero, -⟩
  · rw [same]
  · rw [zero]
    rfl

/-- The zero in the place of a sign does not change the value. -/
theorem denotes_plain : Denotes 16 (plain chars) n ↔ Denotes 16 (unsigned chars) n := by
  rcases plain_cases chars with ⟨same, whole⟩ | ⟨digits, -, zero, rest⟩
  · rw [same, whole]
  · rw [zero, rest, Denotes.zero_cons_iff (by decide) (by decide)]

theorem plain_of_hexDigits (all : ∀ c ∈ chars, c ∈ hexDigits) : plain chars = chars := by
  rcases plain_cases chars with ⟨same, -⟩ | ⟨digits, rfl, -⟩
  · exact same
  · exact absurd (all '+' List.mem_cons_self) (by decide)

theorem wellFormed_of_denotes (size : text.utf8ByteSize = 32)
    (denotes : Denotes 16 (plain text.toList) n) : WellFormed text := by
  have all : ∀ c ∈ plain text.toList, c ∈ hexDigits :=
    fun c member => exists_isDigit_hex.1 (denotes.exists_isDigit c member)
  refine ⟨?_, all⟩
  rw [← byteLength_of_hexDigits all, byteLength_plain, Text.byteLength_toList, size]

theorem WellFormed.utf8ByteSize_eq (formed : WellFormed text) : text.utf8ByteSize = 32 := by
  rw [← Text.byteLength_toList, ← byteLength_plain, byteLength_of_hexDigits formed.2, formed.1]

theorem WellFormed.unsigned_ne_nil (formed : WellFormed text) : unsigned text.toList ≠ [] := by
  have length := formed.1
  rcases plain_cases text.toList with ⟨same, whole⟩ | ⟨digits, -, zero, rest⟩
  · rw [whole, ← same]
    exact List.ne_nil_of_length_pos (by omega)
  · rw [rest]
    rw [zero, List.length_cons] at length
    exact List.ne_nil_of_length_pos (by omega)

/-- An identifier is read just from the texts that denote it. -/
theorem parse_eq_ok_iff_denotes : parse text = .ok id ↔
    WellFormed text ∧ Denotes 16 (plain text.toList) id.value.toNat := by
  have readable {n : Nat} : read 16 (1 <<< 128) (unsigned text.toList) = .ok n ↔ _ :=
    read_eq_ok (by decide) (by decide)
  constructor
  · intro parsed
    unfold parse at parsed
    split at parsed
    next size =>
      split at parsed
      next n value =>
        cases parsed
        obtain ⟨-, denotes, small⟩ := readable.1 value
        have kept : (BitVec.ofNat 128 n).toNat = n := Nat.mod_eq_of_lt small
        have denotes' := denotes_plain.2 denotes
        rw [kept]
        exact ⟨wellFormed_of_denotes size denotes', denotes'⟩
      next => cases parsed
    next => cases parsed
  · rintro ⟨formed, denotes⟩
    have value := readable.2 ⟨formed.unsigned_ne_nil, denotes_plain.1 denotes, id.value.isLt⟩
    rw [parse, if_pos formed.utf8ByteSize_eq, value]
    dsimp only
    rw [BitVec.ofNat_toNat, BitVec.setWidth_eq]

theorem WellFormed.exists_parse (formed : WellFormed text) : ∃ id, parse text = .ok id := by
  obtain ⟨n, denotes⟩ := exists_denotes fun c member => exists_isDigit_hex.2 (formed.2 c member)
  have small : n < 2 ^ 128 := by
    have := denotes.lt_pow
    rwa [formed.1] at this
  have kept : (BitVec.ofNat 128 n).toNat = n := Nat.mod_eq_of_lt small
  rw [← kept] at denotes
  exact ⟨⟨BitVec.ofNat 128 n⟩, parse_eq_ok_iff_denotes.2 ⟨formed, denotes⟩⟩

theorem parse_eq_error {e : InvalidSession} (failed : parse text = .error e) : e = ⟨text⟩ := by
  unfold parse at failed
  split at failed
  next =>
    split at failed
    next => cases failed
    next =>
      cases failed
      rfl
  next =>
    cases failed
    rfl

theorem length_text (id : SessionId) : id.text.toList.length = 32 := by
  rw [text, fixed, String.toList_ofList, length_fixedDigits]

theorem mem_text (id : SessionId) : ∀ c ∈ id.text.toList, c ∈ "0123456789abcdef".toList := by
  have small : ∀ d < 16, Nat.digitChar d ∈ "0123456789abcdef".toList := by decide
  intro c member
  rw [text, fixed, String.toList_ofList] at member
  obtain ⟨d, less, rfl⟩ := exists_digitChar_of_mem_fixedDigits (by decide) member
  exact small d less

theorem denotes_text (id : SessionId) : Denotes 16 id.text.toList id.value.toNat := by
  rw [text, fixed, String.toList_ofList]
  exact denotes_fixedDigits (by decide) (by decide) id.value.isLt

theorem parse_text (id : SessionId) : parse id.text = .ok id := by
  have all : ∀ c ∈ id.text.toList, c ∈ hexDigits :=
    fun c member => exists_isDigit_hex.1 ((denotes_text id).exists_isDigit c member)
  have same := plain_of_hexDigits all
  refine parse_eq_ok_iff_denotes.2 ⟨⟨?_, ?_⟩, ?_⟩
  · rw [same, length_text]
  · rw [same]
    exact all
  · rw [same]
    exact denotes_text id

/-- An identifier that was read is written with the digits that were read, in lower case. -/
theorem toList_text_of_parse (parsed : parse text = .ok id) :
    id.text.toList = (plain text.toList).map Char.toLower := by
  obtain ⟨formed, denotes⟩ := parse_eq_ok_iff_denotes.1 parsed
  rw [SessionId.text, fixed, String.toList_ofList, ← fixedDigits_of_denotes denotes, formed.1]

/-- The text of an identifier has 32 small digits, with zeros in front, and denotes its value. The
identifier is read from it again, so that no other one has this text. -/
theorem text_identifies (id : SessionId) :
    id.text.length = 32 ∧ (∀ c ∈ id.text.toList, c ∈ "0123456789abcdef".toList) ∧
      Denotes 16 id.text.toList id.value.toNat ∧ parse id.text = .ok id ∧
        ∀ other : SessionId, id.text = other.text ↔ id = other := by
  refine ⟨id.text.length_toList ▸ length_text id, mem_text id, denotes_text id, parse_text id,
    fun other => ⟨fun same => ?_, congrArg text⟩⟩
  have parsed := parse_text other
  rw [← same, parse_text id] at parsed
  exact Except.ok.inj parsed

example : SessionId.text ⟨0xdeadbeef⟩ = "000000000000000000000000deadbeef" := by decide +kernel

/-- The texts of 32 digits are read, and those with a plus sign instead of the first digit. What is
read is written with the same digits in lower case, with a zero for the sign. Every other text is
reported as it is. -/
theorem parse_succeeds_iff_wellFormed (text : String) :
    ((∃ id, parse text = .ok id) ↔ WellFormed text) ∧
    (∀ id, parse text = .ok id ↔
      WellFormed text ∧ id.text.toList = (plain text.toList).map Char.toLower) ∧
    ∀ e, parse text = .error e ↔ ¬WellFormed text ∧ e = ⟨text⟩ := by
  have succeeds : (∃ id, parse text = .ok id) ↔ WellFormed text :=
    ⟨fun ⟨_, parsed⟩ => (parse_eq_ok_iff_denotes.1 parsed).1, WellFormed.exists_parse⟩
  refine ⟨succeeds, fun id => ⟨fun parsed => ?_, ?_⟩, fun e => ⟨fun failed => ?_, ?_⟩⟩
  · exact ⟨succeeds.1 ⟨id, parsed⟩, toList_text_of_parse parsed⟩
  · rintro ⟨formed, same⟩
    obtain ⟨other, parsed⟩ := succeeds.2 formed
    rw [← toList_text_of_parse parsed, String.toList_inj] at same
    have again := parse_text id
    rw [same, parse_text other] at again
    rw [parsed, again]
  · refine ⟨fun formed => ?_, parse_eq_error failed⟩
    obtain ⟨id, parsed⟩ := succeeds.2 formed
    rw [failed] at parsed
    cases parsed
  · rintro ⟨other, rfl⟩
    cases failed : parse text with
    | ok id => exact absurd (succeeds.1 ⟨id, failed⟩) other
    | error e => rw [parse_eq_error failed]

/-- A text that begins with a plus sign is read, although it has only 31 digits. -/
theorem parse_plus_sign : ∃ id, parse "+1111111111111111111111111111111" = .ok id ∧
    id.text = "01111111111111111111111111111111" ∧
      ¬∀ c ∈ "+1111111111111111111111111111111".toList, c ∈ hexDigits :=
  ⟨⟨0x01111111111111111111111111111111⟩, by decide +kernel, by decide +kernel,
    fun all => absurd (all '+' (by decide)) (by decide)⟩

end SessionId

end Mips
