import Mathlib.Data.List.Forall2
import Mips.Proofs.Folds
import Mips.Statement.Parser

/-!
# The grammar of operands

The tokens after a mnemonic are operand phrases with one comma or none after each. The grammar is a
relation between tokens and operands, and reading operands finds the only way in which tokens can be
split. What an operand means depends on what is asked for in its place: an instruction is read just
if there is an operand for each place of its signature that can be meant there.
-/
namespace Mips

namespace Operand

/-- A token that names a base register, with a dollar sign or without. -/
inductive NamesBase : Token → Register → Prop
  | register {r : Register} : NamesBase (.register r) r
  | name {name : String} {r : Register} : Register.ofName? name = some r →
      NamesBase (.identifier name) r

/-- The tokens of one operand. -/
inductive Phrase : List Placed → Operand → Prop
  | access {t base : Placed} {p c : Span} {n : Int} {r : Register} : t.token.integer? = some n →
      NamesBase base.token r →
      Phrase [t, ⟨.openParen, p⟩, base, ⟨.closeParen, c⟩] ⟨.access n r, ⟨t.span.start, c.stop⟩⟩
  | base {base : Placed} {p c : Span} {r : Register} : NamesBase base.token r →
      Phrase [⟨.openParen, p⟩, base, ⟨.closeParen, c⟩] ⟨.access 0 r, ⟨p.start, c.stop⟩⟩
  | integer {t : Placed} {n : Int} : t.token.integer? = some n → Phrase [t] ⟨.integer n, t.span⟩
  | register {r : Register} {span : Span} : Phrase [⟨.register r, span⟩] ⟨.register r, span⟩
  | name {name : String} {span : Span} : Phrase [⟨.identifier name, span⟩] ⟨.name name, span⟩
  | text {value : String} {span : Span} : Phrase [⟨.text value, span⟩] ⟨.text value, span⟩

/-- The tokens begin with any token in parentheses. -/
def BeginsInParens (tokens : List Placed) : Prop :=
  ∃ p base c rest, tokens = ⟨.openParen, p⟩ :: base :: ⟨.closeParen, c⟩ :: rest

/-- One comma or nothing. -/
def Separator (tokens : List Placed) : Prop :=
  tokens = [] ∨ ∃ span, tokens = [⟨.comma, span⟩]

/-- The tokens are the phrases of the operands, each with its separator. A number directly before a
token in parentheses is not a phrase of its own. -/
inductive Splits : List Placed → List Operand → Prop
  | nil : Splits [] []
  | cons {phrase separator rest : List Placed} {o : Operand} {operands : List Operand} :
      Phrase phrase o → Separator separator →
      (∀ n, o.value = .integer n → ¬BeginsInParens (separator ++ rest)) →
      Splits rest operands → Splits (phrase ++ (separator ++ rest)) (o :: operands)

variable {t : Placed} {rest rest' : List Placed} {o : Operand}

theorem baseRegister_eq_ok {r : Register} : baseRegister t = .ok r ↔ NamesBase t.token r := by
  unfold baseRegister namedRegister
  constructor
  · intro h
    split at h
    next s ht =>
      cases h
      rw [ht]
      exact .register
    next name ht =>
      split at h
      next found =>
        cases h
        rw [ht]
        exact .name found
      next => cases h
    next => cases h
  · intro h
    split
    next s ht =>
      rw [ht] at h
      cases h
      rfl
    next name ht =>
      rw [ht] at h
      cases h with
      | name found => rw [found]
    next noRegister noName =>
      cases ht : t.token with
      | register s => exact absurd ht (noRegister s)
      | identifier name => exact absurd ht (noName name)
      | _ =>
        rw [ht] at h
        cases h

theorem access_eq_ok {offset : Int} {start close : Span} {base : Placed} :
    access offset start base close = .ok o ↔
      ∃ r, NamesBase base.token r ∧ o = ⟨.access offset r, ⟨start.start, close.stop⟩⟩ := by
  simp only [← baseRegister_eq_ok, access]
  cases baseRegister base with
  | ok r => simp [eq_comm]
  | error e => simp

/-- Reading takes the tokens of one phrase. -/
theorem phrase_eq_ok : phrase t rest = .ok (o, rest') ↔ ∃ covered, t :: rest = covered ++ rest' ∧
    Phrase covered o ∧ ∀ n, o.value = .integer n → ¬BeginsInParens rest' := by
  constructor
  · intro h
    unfold phrase at h
    split at h
    next hn =>
      obtain ⟨o', read, same⟩ := map_eq_ok.1 h
      cases same
      obtain ⟨r, names, rfl⟩ := access_eq_ok.1 read
      exact ⟨[_, _, _, _], rfl, .access hn names, nofun⟩
    next hn noAccess =>
      cases h
      refine ⟨[t], rfl, .integer hn, ?_⟩
      rintro - - ⟨p, base, c, rest, same⟩
      exact noAccess p base c rest same
    next =>
      obtain ⟨token, span⟩ := t
      split at h
      next ht =>
        obtain ⟨o', read, same⟩ := map_eq_ok.1 h
        cases same
        cases ht
        obtain ⟨r, names, rfl⟩ := access_eq_ok.1 read
        exact ⟨[_, _, _], rfl, .base names, nofun⟩
      next ht =>
        cases h
        cases ht
        exact ⟨[_], rfl, .register, nofun⟩
      next ht =>
        cases h
        cases ht
        exact ⟨[_], rfl, .name, nofun⟩
      next ht =>
        cases h
        cases ht
        exact ⟨[_], rfl, .text, nofun⟩
      next => cases h
  · rintro ⟨covered, cut, reads, alone⟩
    cases reads with
    | @access t base p c n r hn names =>
      cases cut
      simp only [phrase, hn]
      exact map_eq_ok.2 ⟨_, access_eq_ok.2 ⟨r, names, rfl⟩, rfl⟩
    | @base base p c r names =>
      cases cut
      exact map_eq_ok.2 ⟨_, access_eq_ok.2 ⟨r, names, rfl⟩, rfl⟩
    | @integer t n hn =>
      cases cut
      unfold phrase
      split
      next same => exact absurd ⟨_, _, _, _, same⟩ (alone n rfl)
      next m hm _ =>
        rw [hn] at hm
        cases hm
        rfl
      next none =>
        rw [hn] at none
        cases none
    | register | name | text =>
      cases cut
      rfl

theorem not_comma_of_phrase {c : Placed} {covered : List Placed}
    (h : Phrase (c :: covered) o) : c.token ≠ .comma := by
  intro comma
  cases h with
  | access hn | integer hn =>
    rw [comma] at hn
    cases hn
  | base | register | name | text => cases comma

theorem phrase_ne_nil {covered : List Placed} (h : Phrase covered o) : covered ≠ [] := by
  cases h <;> nofun

theorem Splits.skipComma_eq {tokens : List Placed} {operands : List Operand}
    (h : Splits tokens operands) : skipComma tokens = tokens := by
  cases h with
  | nil => rfl
  | @cons covered separator rest o operands reads =>
    obtain ⟨c, others, rfl⟩ := List.exists_cons_of_ne_nil (phrase_ne_nil reads)
    have first := not_comma_of_phrase reads
    unfold skipComma
    split
    next same =>
      obtain ⟨rfl, -⟩ := List.cons.inj same
      exact absurd rfl first
    next => rfl

theorem Separator.skipComma_append {separator tokens : List Placed} {operands : List Operand}
    (h : Separator separator) (splits : Splits tokens operands) :
    skipComma (separator ++ tokens) = tokens := by
  rcases h with rfl | ⟨span, rfl⟩
  · exact splits.skipComma_eq
  · rfl

theorem separator_skipComma (tokens : List Placed) :
    ∃ separator, Separator separator ∧ tokens = separator ++ skipComma tokens := by
  unfold skipComma
  split
  next c rest => exact ⟨[⟨.comma, c⟩], .inr ⟨c, rfl⟩, rfl⟩
  next => exact ⟨[], .inl rfl, rfl⟩

theorem Splits.of_phrase {operands : List Operand} (read : phrase t rest = .ok (o, rest'))
    (others : Splits (skipComma rest') operands) : Splits (t :: rest) (o :: operands) := by
  obtain ⟨covered, cut, reads, alone⟩ := phrase_eq_ok.1 read
  obtain ⟨separator, optional, rest_eq⟩ := separator_skipComma rest'
  rw [cut, rest_eq]
  rw [rest_eq] at alone
  exact .cons reads optional alone others

theorem Splits.exists_phrase {operands : List Operand} (h : Splits (t :: rest) operands) :
    ∃ o others rest', operands = o :: others ∧ phrase t rest = .ok (o, rest') ∧
      Splits (skipComma rest') others := by
  generalize cut : t :: rest = tokens at h
  cases h with
  | nil => cases cut
  | @cons covered separator after o others reads optional alone splits =>
    refine ⟨o, others, separator ++ after, rfl, phrase_eq_ok.2 ⟨covered, cut, reads, alone⟩, ?_⟩
    rw [optional.skipComma_append splits]
    exact splits

theorem Splits.eq_nil {operands : List Operand} (h : Splits [] operands) : operands = [] := by
  generalize none : [] = tokens at h
  cases h with
  | nil => rfl
  | cons reads => exact absurd (List.append_eq_nil_iff.1 none.symm).1 (phrase_ne_nil reads)

/-- The induction goes along the reading, one phrase and its separator at a time. -/
theorem readFrom_eq_ok {done all : Array Operand} {tokens : List Placed} :
    readFrom done tokens = .ok all ↔
      ∃ operands, Splits tokens operands ∧ done.toList ++ operands = all.toList := by
  fun_induction readFrom done tokens with
  | case1 done =>
    constructor
    · intro h
      cases h
      exact ⟨[], .nil, List.append_nil _⟩
    · rintro ⟨operands, splits, same⟩
      rw [splits.eq_nil, List.append_nil] at same
      rw [Array.toList_inj.1 same]
  | case2 done t rest o rest' read ih =>
    rw [ih]
    constructor
    · rintro ⟨operands, splits, same⟩
      exact ⟨o :: operands, splits.of_phrase read, by simpa using same⟩
    · rintro ⟨operands, splits, same⟩
      obtain ⟨_, others, _, rfl, read', splits⟩ := splits.exists_phrase
      cases read.symm.trans read'
      exact ⟨others, splits, by simpa using same⟩
  | case3 done t rest e failed =>
    refine iff_of_false nofun ?_
    rintro ⟨operands, splits, -⟩
    obtain ⟨_, _, _, -, read, -⟩ := splits.exists_phrase
    cases failed.symm.trans read

/-- The operands of tokens are those into which the tokens split. -/
theorem ofTokens_eq_ok {tokens : List Placed} {operands : List Operand} :
    ofTokens tokens = .ok operands ↔ Splits tokens operands := by
  rw [ofTokens, map_eq_ok]
  constructor
  · rintro ⟨all, read, rfl⟩
    obtain ⟨operands, splits, same⟩ := readFrom_eq_ok.1 read
    rw [← same]
    exact splits
  · intro splits
    exact ⟨operands.toArray, readFrom_eq_ok.2 ⟨operands, splits, rfl⟩, rfl⟩

end Operand

end Mips
