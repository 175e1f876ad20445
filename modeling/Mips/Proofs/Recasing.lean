import Mips.Proofs.CaseFreedom

/-!
# Statements in another case

Operands, lines and sources are read in the same way if letters at the places without case have
the other case. What is read has the same places and, up to the names of registers, the same
operands, so that the statements are the very same ones.
-/
namespace Mips

open Token Operand

def Token.isNamed : Token → Bool
  | identifier _ | directive _ => true
  | _ => false

theorem Token.SameLetters.isNamed_eq {t t' : Token} (letters : SameLetters t t') :
    t'.isNamed = t.isNamed := by
  cases letters <;> rfl

namespace Placed.Recased

variable {free : Nat → Prop} {t t' : Placed} {tokens tokens' : List Placed}

theorem isNamed_eq (h : t.Recased free t') : t'.token.isNamed = t.token.isNamed := by
  rcases h.token with same | ⟨-, letters⟩
  · rw [same]
  · exact letters.isNamed_eq

theorem eq_of_not_isNamed (h : t.Recased free t') (unnamed : t.token.isNamed = false) : t' = t := by
  obtain ⟨token, span⟩ := t
  obtain ⟨token', span'⟩ := t'
  obtain ⟨rfl, same | ⟨-, letters⟩⟩ := h
  · cases same
    rfl
  · cases letters with
    | refl => rfl
    | identifier | directive => cases unnamed

theorem newline_iff (h : t.Recased free t') : t'.token = .newline ↔ t.token = .newline := by
  have unnamed {u : Token} (newline : u = .newline) : u.isNamed = false := newline ▸ rfl
  constructor
  · intro newline
    rwa [h.eq_of_not_isNamed (h.isNamed_eq ▸ unnamed newline)] at newline
  · intro newline
    rwa [h.eq_of_not_isNamed (unnamed newline)]

theorem eq_of_not_touched (h : t.Recased free t') (fixed : ¬t.span.Touched free) : t' = t := by
  obtain ⟨token, span⟩ := t
  obtain ⟨token', span'⟩ := t'
  obtain ⟨rfl, same | ⟨touched, -⟩⟩ := h
  · cases same
    rfl
  · exact absurd touched fixed

theorem eq_of_forall_not_touched (h : List.Forall₂ (Placed.Recased free) tokens tokens')
    (fixed : ∀ t ∈ tokens, ¬t.span.Touched free) : tokens' = tokens := by
  induction h with
  | nil => rfl
  | cons first _ ih =>
    obtain ⟨here, others⟩ := List.forall_mem_cons.1 fixed
    rw [first.eq_of_not_touched here, ih others]

theorem exists_append {a b : List Placed}
    (h : List.Forall₂ (Placed.Recased free) (a ++ b) tokens) : ∃ a' b', tokens = a' ++ b' ∧
      List.Forall₂ (Placed.Recased free) a a' ∧ List.Forall₂ (Placed.Recased free) b b' := by
  refine ⟨tokens.take a.length, tokens.drop a.length, (List.take_append_drop ..).symm, ?_, ?_⟩
  · simpa using List.forall₂_take a.length h
  · simpa using List.forall₂_drop a.length h

theorem getLastD_span (first : t.Recased free t')
    (h : List.Forall₂ (Placed.Recased free) tokens tokens') :
    (tokens'.getLastD t').span = (tokens.getLastD t).span := by
  induction h generalizing t t' with
  | nil => exact first.span
  | cons next _ ih =>
    rw [List.getLastD_cons, List.getLastD_cons]
    exact ih next

theorem forall₂_lines (h : List.Forall₂ (Placed.Recased free) tokens tokens') :
    List.Forall₂ (List.Forall₂ (Placed.Recased free)) (Statement.lines tokens)
      (Statement.lines tokens') := by
  induction h with
  | nil => exact .cons .nil .nil
  | @cons t t' tokens tokens' first _ ih =>
    by_cases newline : t.token = .newline
    · have newline' := first.newline_iff.2 newline
      obtain ⟨token, span⟩ := t
      obtain ⟨token', span'⟩ := t'
      subst newline newline'
      exact .cons .nil ih
    · have newline' := fun same => newline (first.newline_iff.1 same)
      obtain ⟨line, rest, same⟩ := List.exists_cons_of_ne_nil (Statement.lines_ne_nil tokens)
      obtain ⟨line', rest', same'⟩ := List.exists_cons_of_ne_nil (Statement.lines_ne_nil tokens')
      rw [same, same'] at ih
      obtain ⟨here, others⟩ := List.forall₂_cons.1 ih
      rw [Statement.lines_cons newline same, Statement.lines_cons newline' same']
      exact .cons (.cons first here) others

end Placed.Recased

namespace Operand

structure Recased (free : Nat → Prop) (o o' : Operand) : Prop where
  span : o'.span = o.span
  value : o'.value = o.value ∨ ∃ name name', o.value = .name name ∧ o'.value = .name name' ∧
    name.toLower = name'.toLower ∧ o.span.Touched free

variable {free : Nat → Prop} {t t' : Placed} {tokens tokens' : List Placed} {o : Operand}
  {operands : List Operand}

theorem NamesBase.recased {r : Register} (names : NamesBase t.token r) (h : t.Recased free t') :
    NamesBase t'.token r := by
  obtain ⟨token, span⟩ := t
  obtain ⟨token', span'⟩ := t'
  rcases h.token with same | ⟨-, letters⟩
  · cases same
    exact names
  · cases letters with
    | refl => exact names
    | identifier same =>
      cases names with
      | name found =>
        rw [Register.ofName?_eq_of_toLower same] at found
        exact .name found
    | directive => cases names

theorem integer?_recased {n : Int} (value : t.token.integer? = some n) (h : t.Recased free t') :
    t' = t := by
  refine h.eq_of_not_isNamed ?_
  cases token : t.token with
  | identifier | directive =>
    rw [token] at value
    cases value
  | _ => rfl

theorem Phrase.recased (h : Phrase tokens o)
    (same : List.Forall₂ (Placed.Recased free) tokens tokens') :
    ∃ o', Phrase tokens' o' ∧ o.Recased free o' := by
  cases h with
  | access hn names =>
    obtain _ | ⟨first, _ | ⟨opens, _ | ⟨base, _ | ⟨closes, _ | _⟩⟩⟩⟩ := same
    obtain rfl := integer?_recased hn first
    obtain rfl := opens.eq_of_not_isNamed rfl
    obtain rfl := closes.eq_of_not_isNamed rfl
    exact ⟨_, .access hn (names.recased base), rfl, .inl rfl⟩
  | base names =>
    obtain _ | ⟨opens, _ | ⟨base, _ | ⟨closes, _ | _⟩⟩⟩ := same
    obtain rfl := opens.eq_of_not_isNamed rfl
    obtain rfl := closes.eq_of_not_isNamed rfl
    exact ⟨_, .base (names.recased base), rfl, .inl rfl⟩
  | integer hn =>
    obtain _ | ⟨first, _ | _⟩ := same
    obtain rfl := integer?_recased hn first
    exact ⟨_, .integer hn, rfl, .inl rfl⟩
  | register =>
    obtain _ | ⟨first, _ | _⟩ := same
    obtain rfl := first.eq_of_not_isNamed rfl
    exact ⟨_, .register, rfl, .inl rfl⟩
  | text =>
    obtain _ | ⟨first, _ | _⟩ := same
    obtain rfl := first.eq_of_not_isNamed rfl
    exact ⟨_, .text, rfl, .inl rfl⟩
  | @name name span =>
    obtain _ | ⟨⟨place, token⟩, _ | _⟩ := same
    rename_i t'
    obtain ⟨token', span'⟩ := t'
    dsimp only at place token
    subst place
    rcases token with rfl | ⟨touched, letters⟩
    · exact ⟨_, .name, rfl, .inl rfl⟩
    · cases letters with
      | refl => exact ⟨_, .name, rfl, .inl rfl⟩
      | identifier same => exact ⟨_, .name, rfl, .inr ⟨_, _, rfl, rfl, same, touched⟩⟩

theorem BeginsInParens.of_recased (h : BeginsInParens tokens')
    (same : List.Forall₂ (Placed.Recased free) tokens tokens') : BeginsInParens tokens := by
  obtain ⟨p, base, c, rest, rfl⟩ := h
  obtain _ | ⟨opens, _ | ⟨_, _ | ⟨closes, _⟩⟩⟩ := same
  rename_i t _ u _
  obtain rfl := opens.eq_of_not_isNamed (opens.isNamed_eq ▸ rfl)
  obtain rfl := closes.eq_of_not_isNamed (closes.isNamed_eq ▸ rfl)
  exact ⟨_, _, _, _, rfl⟩

theorem Separator.recased (h : Separator tokens)
    (same : List.Forall₂ (Placed.Recased free) tokens tokens') : Separator tokens' := by
  rcases h with rfl | ⟨span, rfl⟩
  · exact .inl (List.forall₂_nil_left_iff.1 same)
  · obtain _ | ⟨first, _ | _⟩ := same
    exact .inr ⟨span, by rw [first.eq_of_not_isNamed rfl]⟩

theorem Splits.recased (h : Splits tokens operands)
    (same : List.Forall₂ (Placed.Recased free) tokens tokens') : ∃ operands',
      Splits tokens' operands' ∧ List.Forall₂ (Operand.Recased free) operands operands' := by
  induction h generalizing tokens' with
  | nil =>
    obtain rfl := List.forall₂_nil_left_iff.1 same
    exact ⟨[], .nil, .nil⟩
  | @cons covered separator rest o operands reads optional alone _ ih =>
    obtain ⟨covered', behind, rfl, first, others⟩ := Placed.Recased.exists_append same
    obtain ⟨separator', rest', rfl, second, third⟩ := Placed.Recased.exists_append others
    obtain ⟨o', reads', recased⟩ := reads.recased first
    obtain ⟨operands', splits, all⟩ := ih third
    refine ⟨o' :: operands', .cons reads' (optional.recased second) ?_ splits, .cons recased all⟩
    intro n integer begins
    refine alone n ?_ (begins.of_recased others)
    rcases recased.value with value | ⟨name, name', -, value, -⟩
    · rw [← value, integer]
    · rw [integer] at value
      cases value

/-- Only names have a case. -/
theorem Recased.eq_or_named {o' : Operand} (h : o.Recased free o') :
    o' = o ∨ ∃ name, o.value = .name name ∧ o.span.Touched free := by
  obtain ⟨value, span⟩ := o
  obtain ⟨value', span'⟩ := o'
  obtain ⟨rfl, rfl | ⟨name, _, named, -, -, touched⟩⟩ := h
  · exact .inl rfl
  · exact .inr ⟨name, named, touched⟩

theorem Recased.means_register {o' : Operand} {r : Register} (h : o.Recased free o')
    (means : Means o (.register r)) : Means o' (.register r) := by
  obtain ⟨value, span⟩ := o
  obtain ⟨value', span'⟩ := o'
  obtain ⟨rfl, rfl | ⟨name, name', named, named', same, -⟩⟩ := h
  · exact means
  · cases named
    cases named'
    cases means with
    | bareRegister found =>
      rw [Register.ofName?_eq_of_toLower same] at found
      exact .bareRegister found

end Operand

namespace Statement

variable {tokens line line' : List Placed} {first first' : Placed}
  {operands operands' : List Operand} {free : Nat → Prop}

/-- The operands at free positions are those without case. -/
def OnlyCaseless (free : Nat → Prop) (first : Placed) (operands : List Operand) : Prop :=
  ∀ k o, operands[k]? = some o → o.span.Touched free → Caseless first k o.value

/-- An operand whose name may be written in another case is a register. -/
theorem argument_eq_register {i : Instr} {mnemonic name : String} {k : Nat}
    (caseless : Caseless first k (.name name)) (named : first.token = .identifier mnemonic)
    (same : i.mnemonic.name = mnemonic.toLower) (before : k < i.arguments.length) :
    ∃ r, i.arguments[k] = .register r := by
  cases caseless with
  | bareRegister named' found asked =>
    rw [named, Token.identifier.injEq] at named'
    subst named'
    rw [Mnemonic.ofName_eq_ok.2 same, Except.ok.injEq] at found
    rw [← found, ← i.kind_arguments, List.getElem?_map, List.getElem?_eq_getElem before,
      Option.map_some, Option.some.injEq] at asked
    exact Argument.kind_eq_register.1 asked

theorem means_recased {i : Instr} {name : String} (named : first.token = .identifier name)
    (same : i.mnemonic.name = name.toLower) (means : List.Forall₂ Means operands i.arguments)
    (only : OnlyCaseless free first operands)
    (recased : List.Forall₂ (Operand.Recased free) operands operands') :
    List.Forall₂ Means operands' i.arguments := by
  rw [List.forall₂_iff_get] at means recased ⊢
  obtain ⟨length, means⟩ := means
  obtain ⟨length', recased⟩ := recased
  refine ⟨length'.symm.trans length, fun k least most => ?_⟩
  have before : k < operands.length := length'.symm ▸ least
  have meaning := means k before most
  have changed := recased k before least
  simp only [List.get_eq_getElem] at meaning changed ⊢
  rcases changed.eq_or_named with kept | ⟨spelling, value, touched⟩
  · rw [kept]
    exact meaning
  · have caseless := only k _ (List.getElem?_eq_getElem before) touched
    rw [value] at caseless
    obtain ⟨r, register⟩ := argument_eq_register caseless named same most
    rw [register] at meaning ⊢
    exact changed.means_register meaning

/-- The operands of a directive have no case to change. -/
theorem eq_of_directive {name : String} (named : first.token = .directive name)
    (only : OnlyCaseless free first operands)
    (recased : List.Forall₂ (Operand.Recased free) operands operands') : operands' = operands := by
  obtain ⟨length, recased⟩ := List.forall₂_iff_get.1 recased
  refine List.ext_getElem length.symm fun k least most => ?_
  rcases (recased k most least).eq_or_named with kept | ⟨spelling, value, touched⟩
  · exact kept
  · have caseless := only k _ (List.getElem?_eq_getElem most) touched
    rw [List.get_eq_getElem] at value
    rw [value] at caseless
    cases caseless with
    | bareRegister named' =>
      rw [named] at named'
      cases named'

theorem reads_recased {n : Nucleus} (reads : Nucleus.Reads first.token operands n)
    (head : first.Recased free first') (only : OnlyCaseless free first operands)
    (recased : List.Forall₂ (Operand.Recased free) operands operands') :
    Nucleus.Reads first'.token operands' n := by
  have letters : SameLetters first.token first'.token := by
    rcases head.token with same | ⟨-, letters⟩
    · rw [same]
      exact .refl _
    · exact letters
  obtain ⟨token', span'⟩ := first'
  dsimp only at letters ⊢
  generalize named : first.token = t at reads letters
  cases reads with
  | instr same means =>
    have means' := means_recased named same means only recased
    cases letters with
    | refl => exact .instr same means'
    | identifier lower => exact .instr (same.trans lower) means'
  | directive takes =>
    rw [eq_of_directive named only recased]
    cases letters with
    | refl => exact .directive takes
    | directive lower =>
      rw [lower] at takes
      exact .directive takes

theorem BeginsWithLabel.of_recased (h : BeginsWithLabel line')
    (same : List.Forall₂ (Placed.Recased free) line line') : BeginsWithLabel line := by
  obtain ⟨name, span, colon, rest, rfl⟩ := h
  obtain _ | ⟨first, _ | ⟨second, _⟩⟩ := same
  rename_i t _ u _
  obtain rfl := second.eq_of_not_isNamed (second.isNamed_eq ▸ rfl)
  obtain ⟨token, span'⟩ := t
  rcases first.token with same | ⟨-, letters⟩
  · cases same
    exact ⟨_, _, _, _, rfl⟩
  · dsimp only at letters
    cases letters <;> exact ⟨_, _, _, _, rfl⟩

/-- A line adds the same in another case. -/
theorem addLine_recased {p q : Progress} (order : InOrder line)
    (recased : List.Forall₂ (Placed.Recased (CaseFreeAt line)) line line')
    (h : p.addLine line = .ok q) : p.addLine line' = .ok q := by
  obtain ⟨statements, waiting⟩ := p
  obtain ⟨written, labels, rest, reads, rfl, other, read⟩ := Progress.addLine_eq_ok.1 h
  have cut : leadingLabels #[] (written ++ rest) = (#[] ++ labels.toArray, rest) :=
    leadingLabels_eq_iff.2 ⟨written, labels, reads, rfl, other, rfl⟩
  rcases read with ⟨rfl, -⟩ | ⟨first, others, nucleus, rfl, read, rfl⟩
  · have fixed : ∀ t ∈ written ++ [], ¬t.span.Touched (CaseFreeAt (written ++ [])) := by
      rintro t - ⟨i, ⟨span, free, -⟩, -⟩
      obtain ⟨first, operands, labels', rest, cut', -⟩ := free.exists_consists
      rw [cut] at cut'
      cases cut'
    rw [Placed.Recased.eq_of_forall_not_touched recased fixed]
    exact h
  · obtain ⟨operands, splits, meaning⟩ := Nucleus.ofTokens_eq_ok.1 read
    have consists : Consists (written ++ first :: others) first operands :=
      ⟨_, others, cut, Operand.ofTokens_eq_ok.2 splits⟩
    have ends : ∀ t ∈ written, t.span.stop ≤ first.span.start := fun t member =>
      (List.pairwise_append.1 order.pairwise).2.2 t member first List.mem_cons_self
    obtain ⟨written', behind, rfl, before, after⟩ := Placed.Recased.exists_append recased
    obtain rfl := Placed.Recased.eq_of_forall_not_touched before
      fun t member => not_touched_of_stop_le order consists (ends t member)
    have other' : ¬BeginsWithLabel behind := fun begins => other (begins.of_recased after)
    obtain _ | ⟨head, tail⟩ := after
    rename_i first' others'
    obtain ⟨operands', splits', recased'⟩ := splits.recased tail
    have meaning' := reads_recased meaning head
      (fun k o there => caseless_of_touched order consists there) recased'
    have extent' : extent first' others' = extent first others := by
      rw [extent, head.span, Placed.Recased.getLastD_span head tail]
      rfl
    rw [← extent']
    exact Progress.addLine_eq_ok.2 ⟨_, _, _, reads, rfl, other',
      .inr ⟨_, _, nucleus, rfl, Nucleus.ofTokens_eq_ok.2 ⟨operands', splits', meaning'⟩, rfl⟩⟩

theorem foldlM_addLine_recased {p q : Progress} {ls ls' : List (List Placed)}
    (order : InOrder tokens) (inside : ∀ line ∈ ls, line ∈ lines tokens)
    (recased : List.Forall₂ (List.Forall₂ (Placed.Recased (FreeAmong tokens))) ls ls')
    (h : ls.foldlM Progress.addLine p = .ok q) : ls'.foldlM Progress.addLine p = .ok q := by
  induction recased generalizing p with
  | nil => exact h
  | @cons line line' ls ls' here _ ih =>
    obtain ⟨m, first, others⟩ := foldlM_cons_eq_ok.1 h
    obtain ⟨member, inside⟩ := List.forall_mem_cons.1 inside
    have local' : List.Forall₂ (Placed.Recased (CaseFreeAt line)) line line' := by
      refine ((List.forall₂_and_left line line').2
        ⟨fun t there => touched_of_mem_line order member there, here⟩).imp ?_
      rintro t t' ⟨narrow, recased⟩
      exact ⟨recased.span, recased.token.imp_right fun ⟨touched, letters⟩ =>
        ⟨narrow touched, letters⟩⟩
    exact foldlM_cons_eq_ok.2
      ⟨m, addLine_recased (order.of_mem_lines member) local' first, ih inside others⟩

/-- With letters in the other case where this does not matter, a source has the same statements,
their places included. -/
theorem parse_recased {source again : String} {statements : List Statement}
    (parsed : parse source = .ok statements)
    (recased : Text.Recased (SourceText.CaseFree source) 0 source.toList again.toList) :
    parse again = .ok statements := by
  obtain ⟨tokens, p, lexes, read, rfl⟩ := parse_eq_ok.1 parsed
  have order : InOrder tokens := ⟨lexes.pairwise, fun t member => (lexes.within t member).2.1⟩
  have free : SourceText.CaseFree source = FreeAmong tokens := by
    rw [SourceText.CaseFree, SourceText.tokens_eq lexes]
  rw [free] at recased
  obtain ⟨tokens', lexes', same⟩ := lexes.exists_recased recased
    fun t member value text => not_touched_of_mem_text order member text
  have size : again.utf8ByteSize = source.utf8ByteSize := by
    rw [← Text.byteLength_toList, recased.byteLength_eq, Text.byteLength_toList]
  rw [← size]
  exact parse_eq_ok.2 ⟨tokens', p, lexes', foldlM_addLine_recased order (fun _ member => member)
    (Placed.Recased.forall₂_lines same) read, rfl⟩

/-- A source that begins and ends with a label, and quotes its name. -/
def quiet : String :=
  "a: lw t0, 0xa($sp)\n.asciiz \"a\"\nj a"

/-- The same with capitals everywhere but in the name of the label. -/
def loud : String :=
  "a: LW T0, 0XA($SP)\n.ASCIIZ \"a\"\nJ a"

def quietStatements : List Statement :=
  [⟨[⟨"a", 0⟩], .instr (.mem .lw ⟨8⟩ (.offset 10 .sp)), ⟨3, 18⟩⟩,
   ⟨[], .directive (.asciiz "a"), ⟨19, 30⟩⟩,
   ⟨[], .instr (.jump .j ⟨"a", 33⟩), ⟨31, 34⟩⟩]

theorem parse_recased_loud : parse quiet = .ok quietStatements ∧
    Text.Recased (SourceText.CaseFree quiet) 0 quiet.toList loud.toList ∧
      parse loud = .ok quietStatements := by
  have parsed : parse quiet = .ok quietStatements := by decide +kernel
  let operands : List Placed := [⟨.identifier "t0", ⟨6, 8⟩⟩, ⟨.comma, ⟨8, 9⟩⟩,
    ⟨.unsigned 10, ⟨10, 13⟩⟩, ⟨.openParen, ⟨13, 14⟩⟩, ⟨.register .sp, ⟨14, 17⟩⟩,
    ⟨.closeParen, ⟨17, 18⟩⟩]
  let load : List Placed := ⟨.identifier "a", ⟨0, 1⟩⟩ :: ⟨.colon, ⟨1, 2⟩⟩ ::
    ⟨.identifier "lw", ⟨3, 5⟩⟩ :: operands
  let data : List Placed := [⟨.directive "asciiz", ⟨19, 26⟩⟩, ⟨.text "a", ⟨27, 30⟩⟩]
  let jump : List Placed := [⟨.identifier "j", ⟨31, 32⟩⟩, ⟨.identifier "a", ⟨33, 34⟩⟩]
  have cut : lines (SourceText.tokens quiet) = [load, data, jump] := by decide +kernel
  have first : Consists load ⟨.identifier "lw", ⟨3, 5⟩⟩
      [⟨.name "t0", ⟨6, 8⟩⟩, ⟨.access 10 .sp, ⟨10, 18⟩⟩] :=
    ⟨#[⟨"a", 0⟩], operands, by decide +kernel, by decide +kernel⟩
  have second : Consists data ⟨.directive "asciiz", ⟨19, 26⟩⟩ [⟨.text "a", ⟨27, 30⟩⟩] :=
    ⟨#[], [⟨.text "a", ⟨27, 30⟩⟩], by decide +kernel, by decide +kernel⟩
  have third : Consists jump ⟨.identifier "j", ⟨31, 32⟩⟩ [⟨.name "a", ⟨33, 34⟩⟩] :=
    ⟨#[], [⟨.identifier "a", ⟨33, 34⟩⟩], by decide +kernel, by decide +kernel⟩
  have loads : load ∈ lines (SourceText.tokens quiet) := by simp [cut]
  have quotes : data ∈ lines (SourceText.tokens quiet) := by simp [cut]
  have jumps : jump ∈ lines (SourceText.tokens quiet) := by simp [cut]
  have lw : CaseFree load ⟨3, 5⟩ := .mnemonic first rfl
  have register : CaseFree load ⟨6, 8⟩ :=
    .operand (n := 0) first rfl (.bareRegister rfl (m := .mem .lw) (by decide +kernel) rfl)
  have access : CaseFree load ⟨10, 18⟩ := .operand (n := 1) first rfl .access
  have asciiz : CaseFree data ⟨19, 26⟩ := .directive second rfl
  have j : CaseFree jump ⟨31, 32⟩ := .mnemonic third rfl
  have recased : Text.Recased (SourceText.CaseFree quiet) 0 quiet.toList loud.toList := by
    have text : quiet.toList = "a: ".toList ++ ("lw".toList ++ (" ".toList ++ ("t0".toList ++
      (", ".toList ++ ("0xa($sp)".toList ++ ("\n".toList ++ (".asciiz".toList ++
        (" \"a\"\n".toList ++ ("j".toList ++ " a".toList))))))))) := by decide +kernel
    have text' : loud.toList = "a: ".toList ++ ("LW".toList ++ (" ".toList ++ ("T0".toList ++
      (", ".toList ++ ("0XA($SP)".toList ++ ("\n".toList ++ (".ASCIIZ".toList ++
        (" \"a\"\n".toList ++ ("J".toList ++ " a".toList))))))))) := by decide +kernel
    rw [text, text']
    refine .append (.refl _) (.append (lw.recased loads ?_ ?_ ?_)
      (.append (.refl _) (.append (register.recased loads ?_ ?_ ?_)
        (.append (.refl _) (.append (access.recased loads ?_ ?_ ?_)
          (.append (.refl _) (.append (asciiz.recased quotes ?_ ?_ ?_)
            (.append (.refl _) (.append (j.recased jumps ?_ ?_ ?_) (.refl _))))))))))
    all_goals decide +kernel
  exact ⟨parsed, recased, parse_recased parsed recased⟩

end Statement

end Mips
