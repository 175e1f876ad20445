import Mathlib.Data.List.Nodup
import Mips.Proofs.LetterCase
import Mips.Proofs.Numerals

/-!
# Names and numbers of registers

A register is read from exactly those texts that call it by its name, in any case of letters, or by
its number, with any zeros in front, behind one dollar sign or none. The texts of the registers are
among them.
-/
namespace Mips

theorem Numeral.isDigit_iff_mem {c : Char} : c.isDigit = true ↔ c ∈ decimalDigits := by
  constructor
  · intro digit
    have lower := (toLower_eq_digitChar c).1 digit
    simp only [Char.isDigit, Bool.and_eq_true, decide_eq_true_eq, ge_iff_le,
      UInt32.le_iff_toNat_le] at digit
    have most : c.toNat ≤ 57 := digit.2
    refine exists_isDigit_decimal.1 ⟨_, ?_, lower⟩
    change c.toNat - 48 < 10
    omega
  · have all : decimalDigits.all Char.isDigit = true := by decide
    exact List.all_eq_true.1 all c

namespace Register

/-- The text is a number of the register in decimal digits, or its name in any case of letters. -/
inductive Called (r : Register) : List Char → Prop
  | number {text : List Char} : text ≠ [] → (∀ c ∈ text, c ∈ Numeral.decimalDigits) →
      Numeral.Denotes 10 text r.index → Called r text
  | name {text : List Char} : text.map Char.toLower = r.name.toList.map Char.toLower →
      Called r text

/-- A text by which a register is called, behind one dollar sign or none. -/
def Written (r : Register) (text : List Char) : Prop :=
  ∃ body, (text = '$' :: body ∨ text = body) ∧ r.Called body

variable {r s : Register} {body text : List Char}

theorem mem_all (r : Register) : r ∈ all :=
  List.mem_map.2 ⟨r.index, List.mem_finRange _, ofIndex_index r⟩

theorem eq_of_name_eq (same : r.name = s.name) : r = s := by
  have distinct : (all.map name).Nodup := by decide +kernel
  exact List.inj_on_of_nodup_map distinct (mem_all r) (mem_all s) same

theorem ofName?_eq_some {name : String} : ofName? name = some r ↔ r.name = name.toLower := by
  unfold ofName?
  constructor
  · intro found
    have same := List.find?_some found
    exact beq_iff_eq.1 same
  · intro same
    cases found : all.find? fun s => s.name == name.toLower with
    | none => exact absurd (beq_iff_eq.2 same) (List.find?_eq_none.1 found r (mem_all r))
    | some s =>
      have same' := List.find?_some found
      rw [eq_of_name_eq ((beq_iff_eq.1 same').trans same.symm)]

/-- Names are in lower case, without a dollar sign and not made of digits alone. -/
theorem name_plain (r : Register) : r.name.toList.map Char.toLower = r.name.toList ∧
    '$' ∉ r.name.toList ∧ r.name.toList.all Char.isDigit = false := by
  have all : ∀ i : Fin 32, (ofIndex i).name.toList.map Char.toLower = (ofIndex i).name.toList ∧
      '$' ∉ (ofIndex i).name.toList ∧ (ofIndex i).name.toList.all Char.isDigit = false := by
    decide +kernel
  exact all r.index

theorem ofName?_ofList_eq_some : ofName? (String.ofList text) = some r ↔
    text.map Char.toLower = r.name.toList.map Char.toLower := by
  have lower : (String.ofList text).toLower = (String.ofList text).map Char.toLower := rfl
  rw [ofName?_eq_some, ← String.toList_inj, lower, String.toList_map, String.toList_ofList,
    r.name_plain.1, eq_comm]

theorem index_ofNat {n : Nat} (small : n < 32) : index ⟨BitVec.ofNat 5 n⟩ = n :=
  Nat.mod_eq_of_lt small

/-- A number is a text of digits only, and a name is none. -/
theorem parseBody?_eq_some : parseBody? body = some r ↔ r.Called body := by
  unfold parseBody?
  split
  next digits =>
    rw [Bool.and_eq_true, Bool.not_eq_true', List.isEmpty_eq_false_iff, List.all_eq_true] at digits
    obtain ⟨some, all⟩ := digits
    constructor
    · intro found
      split at found
      next n read =>
        cases found
        obtain ⟨-, denotes, small⟩ := (Numeral.read_eq_ok (by decide) (by decide)).1 read
        refine .number some (fun c member => Numeral.isDigit_iff_mem.1 (all c member)) ?_
        rwa [index_ofNat small]
      next => cases found
    · intro called
      cases called with
      | number _ _ denotes =>
        rw [(Numeral.read_eq_ok (by decide) (by decide)).2 ⟨some, denotes, r.index_lt⟩]
        exact congrArg _ (index_inj.1 (Fin.ext (index_ofNat r.index_lt)))
      | name same =>
        have lower : ∀ c ∈ r.name.toList, c.isDigit = true := by
          rw [← r.name_plain.1, ← same]
          exact List.forall_mem_map.2 fun c member =>
            (Text.charIsDigit_toLower c).trans (all c member)
        have mixed := r.name_plain.2.2
        rw [List.all_eq_true.2 lower] at mixed
        cases mixed
  next other =>
    rw [ofName?_ofList_eq_some]
    constructor
    · exact .name
    · intro called
      cases called with
      | number some digits _ =>
        have all : body.all Char.isDigit = true :=
          List.all_eq_true.2 fun c member => Numeral.isDigit_iff_mem.2 (digits c member)
        exact absurd (by simp [some, all]) other
      | name same => exact same

theorem Called.head_ne (called : r.Called ('$' :: body)) : False := by
  cases called with
  | number _ digits _ => exact absurd (digits '$' List.mem_cons_self) (by decide)
  | name same =>
    have inside : '$' ∈ ('$' :: body).map Char.toLower := List.mem_cons_self
    rw [same, r.name_plain.1] at inside
    exact r.name_plain.2.1 inside

/-- Only one dollar sign is left out, and no body of a register begins with another one. -/
theorem parse?_eq_some : parse? text = some r ↔ r.Written text := by
  unfold parse? Written
  split
  next rest =>
    rw [parseBody?_eq_some]
    constructor
    · exact fun called => ⟨rest, .inl rfl, called⟩
    · rintro ⟨body, same | rfl, called⟩
      · cases same
        exact called
      · exact called.head_ne.elim
  next other =>
    rw [parseBody?_eq_some]
    constructor
    · exact fun called => ⟨_, .inr rfl, called⟩
    · rintro ⟨body, rfl | rfl, called⟩
      · exact absurd rfl (other body)
      · exact called

theorem parse_eq_ok : parse text = .ok r ↔ r.Written text := by
  rw [← parse?_eq_some, parse]
  cases parse? text with
  | some s => simp
  | none => simp

theorem parse_eq_error {e : LexError} :
    parse text = .error e ↔ (∀ r : Register, ¬r.Written text) ∧ e = .unknownRegister := by
  simp only [← parse?_eq_some, parse]
  cases parse? text with
  | some s => simp
  | none => simp [eq_comm]

/-- A register is read from a text exactly if this calls it by its name or its number, and any other
text is refused. The three texts of a register are read as this register. -/
theorem parse_succeeds_iff_written :
    (∀ (text : List Char) (r : Register), parse text = .ok r ↔ r.Written text) ∧
    (∀ (text : List Char) (e : LexError),
      parse text = .error e ↔ (∀ r : Register, ¬r.Written text) ∧ e = .unknownRegister) ∧
    ∀ r : Register, parse r.text.toList = .ok r ∧ parse r.name.toList = .ok r ∧
      parse (Numeral.decimal r.index).toList = .ok r := by
  refine ⟨fun text r => parse_eq_ok, fun text e => parse_eq_error, fun r => ?_⟩
  have name : r.Called r.name.toList := .name rfl
  refine ⟨parse_eq_ok.2 ⟨_, .inl ?_, name⟩, parse_eq_ok.2 ⟨_, .inr rfl, name⟩,
    parse_eq_ok.2 ⟨_, .inr rfl, ?_⟩⟩
  · rw [text, String.toList_append]
    rfl
  · have denotes : Numeral.Denotes 10 (Nat.toDigits 10 r.index) r.index :=
      Numeral.denotes_toDigits (by decide) (by decide)
    rw [Numeral.decimal, Numeral.digits, String.toList_ofList]
    refine .number (List.length_pos_iff.1 Nat.length_toDigits_pos) (fun c member => ?_) denotes
    exact Numeral.exists_isDigit_decimal.1 (denotes.exists_isDigit c member)

/-- Zeros in front and capital letters are read, a second dollar sign and a plus sign are not. -/
example : parse "$0000000000029".toList = .ok .sp ∧ parse "$Sp".toList = .ok .sp ∧
    parse "$$sp".toList = .error .unknownRegister ∧
      parse "+29".toList = .error .unknownRegister := by
  decide +kernel

end Register

end Mips
