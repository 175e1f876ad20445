import Mips.Proofs.Lexing
import Mips.Proofs.Magnitudes

/-!
# Texts of tokens

Which texts have which tokens wherever they stand. The text of a token has just this token unless a
word goes on behind it, and texts follow each other if none of them goes on with the one before.
-/
namespace Mips

namespace Text

/-- What a label or a mnemonic may be called. -/
def IsName (name : String) : Prop :=
  ∃ c rest, name.toList = c :: rest ∧ isNameStart c = true ∧ ∀ d ∈ rest, isWordChar d = true

/-- Characters that are quoted as themselves or with a backslash and one character. -/
def IsPlain (c : Char) : Prop :=
  c = '\x00' ∨ c = '\t' ∨ c = '\n' ∨ c = '\r' ∨ 0x20 ≤ c.toNat ∧ c.toNat ≤ 0x7E

instance (c : Char) : Decidable (IsPlain c) :=
  inferInstanceAs (Decidable (_ ∨ _))

/-- No word goes on with the text. -/
def EndsWord (text : List Char) : Prop :=
  ∀ c, text.head? = some c → isWordChar c = false

theorem endsWord_nil : EndsWord [] := nofun

theorem endsWord_cons {c : Char} {text : List Char} (other : isWordChar c = false) :
    EndsWord (c :: text) := by
  rintro d ⟨⟩
  exact other

theorem EndsWord.append {a b : List Char} (first : EndsWord a) (second : EndsWord b) :
    EndsWord (a ++ b) := by
  cases a with
  | nil => exact second
  | cons c a => exact first

/-- What is quoted character by character stands for what was quoted. -/
theorem quotes_flatMap_quoteChar {value : List Char} (plain : ∀ c ∈ value, IsPlain c) :
    Quotes (value.flatMap quoteChar ++ ['"']) value := by
  induction value with
  | nil => exact .close
  | cons c value ih =>
    obtain ⟨first, others⟩ := List.forall_mem_cons.1 plain
    have quotes := ih others
    rw [List.flatMap_cons, List.append_assoc]
    unfold quoteChar
    split
    case h_1 | h_2 | h_3 | h_4 | h_5 | h_6 => exact .escape (by decide) quotes
    case h_7 noNul noTab noReturn noNewline noQuote noBackslash =>
      have printable : isPrintable c = true := by
        rcases first with rfl | rfl | rfl | rfl | ⟨least, most⟩
        · exact absurd rfl noNul
        · exact absurd rfl noTab
        · exact absurd rfl noNewline
        · exact absurd rfl noReturn
        · rw [isPrintable, if_pos (by omega)]
          simp only [Bool.and_eq_true, decide_eq_true_eq]
          omega
      rw [if_pos printable]
      exact .plain noNewline noQuote noBackslash quotes

end Text

open Text

namespace Token

/-- The token of a number in decimal digits, with a minus sign if it is negative. -/
def number (z : Int) : Token :=
  if z < 0 then .signed z else .unsigned z.toNat

theorem integer?_number (z : Int) : (number z).integer? = some z := by
  unfold number
  split
  next => rfl
  next nonneg => rw [integer?, Int.toNat_of_nonneg (Int.not_lt.1 nonneg)]

theorem number_ne {z : Int} {t : Token} (other : t.integer? = none) : number z ≠ t := by
  rintro rfl
  rw [integer?_number] at other
  cases other

theorem endsBefore_of_endsWord {t : Token} (noComment : t ≠ .comment) {rest : List Char}
    (ends : EndsWord rest) : t.EndsBefore rest := by
  cases t with
  | comment => exact absurd rfl noComment
  | unsigned | signed | register | identifier | directive => exact ends
  | _ => exact fun _ _ => rfl

variable {name : String}

theorem spelled_of_isName (h : IsName name) : Spelled name.toList (.identifier name) := by
  obtain ⟨c, rest, same, starts, all⟩ := h
  rw [← String.ofList_toList (s := name), same, String.toList_ofList]
  exact .identifier starts all

theorem isName_of_spelled {written : List Char} (h : Spelled written (.identifier name)) :
    IsName name := by
  obtain ⟨c, rest, rfl, same, starts, all⟩ := Reading.exists_name_of_spelled h
  exact ⟨c, rest, same, starts, all⟩

theorem spelled_directive (h : IsName name) : Spelled ('.' :: name.toList) (.directive name) := by
  obtain ⟨c, rest, same, starts, all⟩ := h
  rw [← String.ofList_toList (s := name), same, String.toList_ofList]
  exact .directive starts all

theorem spelled_register (r : Register) : Spelled r.text.toList (.register r) := by
  have all : ∀ i : Fin 32, ((Register.ofIndex i).name.toList.all isWordChar = true) ∧
      Register.parseBody? (Register.ofIndex i).name.toList = some (Register.ofIndex i) := by
    decide +kernel
  obtain ⟨word, read⟩ := all r.index
  rw [Register.ofIndex_index] at word read
  have spelled : Spelled ('$' :: r.name.toList) (.register r) :=
    .register (List.all_eq_true.1 word) (by rw [Reading.register, read])
  rw [Register.text, String.toList_append]
  exact spelled

theorem endsWord_register (r : Register) : EndsWord r.text.toList := by
  rw [Register.text, String.toList_append]
  exact endsWord_cons (by decide)

theorem spelled_quoted {value : String} (plain : ∀ c ∈ value.toList, IsPlain c) :
    Spelled (quoted value).toList (.text value) := by
  have spelled := Spelled.text (quotes_flatMap_quoteChar plain)
  rw [String.ofList_toList] at spelled
  rw [quoted, String.toList_ofList]
  exact spelled

theorem spelled_number {z : Int} (least : -(1 <<< 31 : Nat) ≤ z) (most : z < (1 <<< 32 : Nat)) :
    Spelled (Numeral.signedDecimal z).toList (number z) := by
  unfold Numeral.signedDecimal number Numeral.decimal Numeral.digits
  split
  next negative =>
    have spelled := spelled_minus_of_magnitude (.of_toDigits z.natAbs) (by omega)
    rw [show -(z.natAbs : Int) = z by omega] at spelled
    simp only [String.toList_append, String.toList_ofList]
    exact spelled
  next nonneg =>
    have spelled := spelled_of_magnitude (.of_toDigits z.natAbs) (by omega)
    rw [show z.toNat = z.natAbs by omega, String.toList_ofList]
    exact spelled

/-- Every word is shown in the bounds of numbers. -/
theorem spelled_signedText (w : Word) : Spelled (Word.signedText w).toList (number w.toInt) := by
  have least := w.le_toInt
  have most := w.toInt_lt
  exact spelled_number least (by omega)

end Token

/-- In front of any text that no word goes on with, the text has the tokens. -/
def Writes (text : List Char) (tokens : List Token) : Prop :=
  ∀ (start : Nat) (rest : List Char) (others : List Placed), EndsWord rest →
    Lexes (start + byteLength text) rest others →
    ∃ placed : List Placed, placed.map Placed.token = tokens ∧
      Lexes start (text ++ rest) (placed ++ others)

namespace Writes

variable {a b text written : List Char} {as bs tokens : List Token} {t : Token}

theorem nil : Writes [] [] :=
  fun _ _ _ _ after => ⟨[], rfl, after⟩

theorem of_spelled (spelled : Token.Spelled written t) (noComment : t ≠ .comment) :
    Writes written [t] :=
  fun _ _ _ ends after =>
    ⟨[⟨t, _⟩], rfl, .token spelled noComment (Token.endsBefore_of_endsWord noComment ends) after⟩

theorem blank (h : Writes text tokens) : Writes (' ' :: text) tokens := by
  intro start rest others ends after
  rw [byteLength_cons, ← Nat.add_assoc] at after
  obtain ⟨placed, same, lexes⟩ := h _ rest others ends after
  exact ⟨placed, same, .blank rfl lexes⟩

theorem append (first : Writes a as) (second : Writes b bs) (apart : EndsWord b) :
    Writes (a ++ b) (as ++ bs) := by
  intro start rest others ends after
  rw [byteLength_append, ← Nat.add_assoc] at after
  obtain ⟨placed', same', lexes'⟩ := second _ rest others ends after
  obtain ⟨placed, same, lexes⟩ := first start (b ++ rest) _ (apart.append ends) lexes'
  refine ⟨placed ++ placed', by rw [List.map_append, same, same'], ?_⟩
  rw [List.append_assoc, List.append_assoc]
  exact lexes

/-- Texts with commas between them have their tokens with commas between them. -/
theorem intercalate {texts : List (List Char)} {pieces : List (List Token)}
    (h : List.Forall₂ Writes texts pieces) :
    Writes ([',', ' '].intercalate texts) ([Token.comma].intercalate pieces) := by
  induction h with
  | nil => exact nil
  | @cons a as texts pieces first others ih =>
    cases others with
    | nil =>
      rw [List.intercalate_singleton, List.intercalate_singleton]
      exact first
    | cons second others =>
      rw [List.intercalate_cons_cons, List.intercalate_cons_cons, List.append_assoc,
        List.append_assoc]
      have comma : Writes [','] [.comma] := of_spelled .comma nofun
      exact first.append (comma.append ih.blank (endsWord_cons (by decide)))
        (endsWord_cons (by decide))

end Writes

end Mips
