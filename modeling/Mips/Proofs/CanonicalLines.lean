import Mips.Proofs.CanonicalTokens

/-!
# Reading canonical lines

A line with the tokens of a statement is read as this statement, except that it stands elsewhere.
That two statements differ only in their places is said by putting all positions to zero.
-/
namespace Mips

def nowhere (_ : Nat) : Nat :=
  0

namespace Operand

variable {o : Operand} {a b : Argument} {placed : List Placed}

theorem means_of_value (h : o.value = a.value) :
    Means o (a.moved fun _ => o.span.start) := by
  obtain ⟨value, span⟩ := o
  cases h
  cases a with
  | register r => exact .register
  | amount n =>
    have same : BitVec.ofInt 5 n.toNat = n := by
      rw [BitVec.ofInt_natCast, BitVec.ofNat_toNat, BitVec.setWidth_eq]
    have means : Means ⟨.integer n.toNat, span⟩ (.amount (BitVec.ofInt 5 n.toNat)) := .amount
    rw [same] at means
    exact means
  | word w =>
    have means : Means ⟨.integer w.toInt, span⟩ (.word (Word.ofInt w.toInt)) := .word
    rw [Word.ofInt, BitVec.ofInt_toInt] at means
    exact means
  | label l => exact .label
  | address place =>
    cases place with
    | label l => exact .place
    | offset n base =>
      have means : Means ⟨.access n.toInt base, span⟩
        (.address (.offset (Word.ofInt n.toInt) base)) := .access
      rw [Word.ofInt, BitVec.ofInt_toInt] at means
      exact means

theorem Means.unique (first : Means o a) (second : Means o b) (same : a.kind = b.kind) :
    a = b := by
  cases first with
  | bareRegister found =>
    cases second with
    | bareRegister found' =>
      rw [found] at found'
      cases found'
      rfl
    | label | place => cases same
  | register | amount | word | label | access | place =>
    cases second <;> first | rfl | cases same

theorem exists_phrase (same : placed.map Placed.token = a.tokens) :
    ∃ o, Phrase placed o ∧ o.value = a.value := by
  cases a with
  | register r =>
    obtain ⟨⟨t, span⟩, rfl, rfl⟩ := List.map_eq_singleton_iff.1 same
    exact ⟨_, .register, rfl⟩
  | amount n =>
    obtain ⟨⟨t, span⟩, rfl, rfl⟩ := List.map_eq_singleton_iff.1 same
    exact ⟨_, .integer rfl, rfl⟩
  | word w =>
    obtain ⟨⟨t, span⟩, rfl, rfl⟩ := List.map_eq_singleton_iff.1 same
    exact ⟨_, .integer (Token.integer?_number _), rfl⟩
  | label l =>
    obtain ⟨⟨t, span⟩, rfl, rfl⟩ := List.map_eq_singleton_iff.1 same
    exact ⟨_, .name, rfl⟩
  | address place =>
    cases place with
    | label l =>
      obtain ⟨⟨t, span⟩, rfl, rfl⟩ := List.map_eq_singleton_iff.1 same
      exact ⟨_, .name, rfl⟩
    | offset n base =>
      obtain ⟨⟨_, span⟩, _, rfl, rfl, after⟩ := List.map_eq_cons_iff.1 same
      obtain ⟨⟨_, opens⟩, _, rfl, rfl, inside⟩ := List.map_eq_cons_iff.1 after
      obtain ⟨⟨_, register⟩, _, rfl, rfl, last⟩ := List.map_eq_cons_iff.1 inside
      obtain ⟨⟨_, closes⟩, rfl, rfl⟩ := List.map_eq_singleton_iff.1 last
      exact ⟨_, .access (Token.integer?_number _) .register, rfl⟩

theorem Splits.singleton (phrase : Phrase placed o) : Splits placed [o] := by
  have alone : ¬BeginsInParens ([] ++ []) := by
    rintro ⟨_, _, _, _, none⟩
    cases none
  have splits := Splits.cons phrase (.inl rfl) (fun _ _ => alone) .nil
  rw [List.append_nil, List.append_nil] at splits
  exact splits

/-- Tokens of arguments with commas between them split into operands that are read as the
arguments. -/
theorem exists_splits {arguments : List Argument}
    (same : placed.map Placed.token = [Token.comma].intercalate (arguments.map Argument.tokens)) :
    ∃ operands, Splits placed operands ∧
      operands.map Operand.value = arguments.map Argument.value := by
  induction arguments generalizing placed with
  | nil =>
    obtain rfl := List.map_eq_nil_iff.1 same
    exact ⟨[], .nil, rfl⟩
  | cons a arguments ih =>
    cases arguments with
    | nil =>
      rw [List.map_singleton, List.intercalate_singleton] at same
      obtain ⟨o, phrase, value⟩ := exists_phrase same
      exact ⟨[o], .singleton phrase, by rw [List.map_singleton, value, List.map_singleton]⟩
    | cons b arguments =>
      rw [List.map_cons, List.map_cons, List.intercalate_cons_cons, List.append_assoc,
        ← List.map_cons] at same
      obtain ⟨first, _, rfl, head, after⟩ := List.map_eq_append_iff.1 same
      obtain ⟨⟨_, comma⟩, rest, rfl, rfl, others⟩ := List.map_eq_cons_iff.1 after
      obtain ⟨o, phrase, value⟩ := exists_phrase head
      obtain ⟨operands, splits, values⟩ := ih others
      have alone : ¬BeginsInParens ([⟨.comma, comma⟩] ++ rest) := by
        rintro ⟨_, _, _, _, begins⟩
        cases begins
      refine ⟨o :: operands, .cons phrase (.inr ⟨comma, rfl⟩) (fun _ _ => alone) splits, ?_⟩
      rw [List.map_cons, List.map_cons, value, values]

end Operand

theorem Argument.kind_moved (f : Nat → Nat) (a : Argument) : (a.moved f).kind = a.kind := by
  cases a <;> rfl

theorem Argument.moved_moved (f g : Nat → Nat) (a : Argument) :
    (a.moved f).moved g = a.moved (g ∘ f) := by
  rcases a with _ | _ | _ | _ | _ | _ <;> rfl

theorem Instr.eq_of_arguments {i j : Instr} (mnemonic : i.mnemonic = j.mnemonic)
    (arguments : i.arguments = j.arguments) : i = j := by
  cases i <;> cases j <;> simp_all [Instr.mnemonic, Instr.arguments]

theorem Operand.map_nowhere_eq {operands : List Operand} {as bs : List Argument}
    (first : List.Forall₂ Means operands as)
    (second : List.Forall₂ (fun o b => Means o (b.moved fun _ => o.span.start)) operands bs)
    (kinds : as.map Argument.kind = bs.map Argument.kind) :
    as.map (Argument.moved nowhere) = bs.map (Argument.moved nowhere) := by
  induction first generalizing bs with
  | nil =>
    cases second
    rfl
  | @cons o a operands as means others ih =>
    obtain _ | ⟨means', others'⟩ := second
    obtain ⟨kind, kinds⟩ := List.cons.inj kinds
    have same := means.unique means' (kind.trans (Argument.kind_moved ..).symm)
    rw [List.map_cons, List.map_cons, ih others' kinds, same, Argument.moved_moved]
    rfl

theorem Operand.forall₂_means_of_value {operands : List Operand} {arguments : List Argument}
    (values : operands.map value = arguments.map Argument.value) :
    List.Forall₂ (fun o a => Means o (a.moved fun _ => o.span.start)) operands arguments := by
  rw [← List.forall₂_eq_eq_eq, List.forall₂_map_left_iff, List.forall₂_map_right_iff] at values
  exact values.imp fun _ _ => means_of_value

/-- The operands are read as an instruction that differs only in its places. -/
theorem Instr.exists_of_value {i : Instr} {operands : List Operand}
    (values : operands.map Operand.value = i.arguments.map Argument.value) :
    ∃ i' : Instr, i'.mnemonic = i.mnemonic ∧ List.Forall₂ Operand.Means operands i'.arguments ∧
      i'.moved nowhere = i.moved nowhere := by
  have expected := Operand.forall₂_means_of_value values
  have fit : List.Forall₂ Operand.Fits operands i.mnemonic.signature := by
    rw [← i.kind_arguments, List.forall₂_map_right_iff]
    exact expected.imp fun o a means => Operand.fits_iff_means.2 ⟨_, a.kind_moved _, means⟩
  obtain ⟨i', made⟩ := exists_of_fits ⟨0, 0⟩ fit
  obtain ⟨mnemonic, means⟩ := ofOperands_eq_ok.1 made
  have kinds : i'.arguments.map Argument.kind = i.arguments.map Argument.kind := by
    rw [i'.kind_arguments, i.kind_arguments, mnemonic]
  refine ⟨i', mnemonic, means, eq_of_arguments (by simp [mnemonic]) ?_⟩
  rw [arguments_moved, arguments_moved]
  exact Operand.map_nowhere_eq means expected kinds

theorem Mnemonic.toLower_name (m : Mnemonic) : m.name.toLower = m.name := by
  have all : ∀ m ∈ all, m.name.toLower = m.name := by decide +kernel
  exact all m m.mem_all

theorem Directive.toLower_name (d : Directive) : d.name.toLower = d.name := by
  have all : ∀ name ∈ names, name.toLower = name := by decide +kernel
  exact all d.name d.name_mem_names

/-- The operands of a directive are read as it was, except for its places. -/
theorem Directive.exists_takes {d : Directive} (named : (Nucleus.directive d).Named)
    {placed : List Placed} (same : placed.map Placed.token = d.operandTokens) :
    ∃ operands d', Operand.Splits placed operands ∧ Takes d.name operands d' ∧
      d'.moved nowhere = d.moved nowhere := by
  cases d with
  | data =>
    obtain rfl := List.map_eq_nil_iff.1 same
    exact ⟨[], .data, .nil, .data, rfl⟩
  | text =>
    obtain rfl := List.map_eq_nil_iff.1 same
    exact ⟨[], .text, .nil, .text, rfl⟩
  | word values =>
    have words : placed.map Placed.token =
        [Token.comma].intercalate ((values.map Argument.word).map Argument.tokens) := by
      rw [same, operandTokens, List.map_map]
      rfl
    obtain ⟨operands, splits, read⟩ := Operand.exists_splits words
    have means : List.Forall₂ Operand.Means operands (values.map .word) := by
      have placedMeans := Operand.forall₂_means_of_value read
      rw [List.forall₂_map_right_iff] at placedMeans ⊢
      exact placedMeans
    have nonempty : operands ≠ [] := by
      rintro rfl
      cases means_nil : values with
      | nil => exact named means_nil
      | cons w values =>
        rw [means_nil] at read
        cases read
    exact ⟨operands, .word values, splits, .word nonempty means, rfl⟩
  | asciiz value =>
    obtain ⟨⟨t, span⟩, rfl, rfl⟩ := List.map_eq_singleton_iff.1 same
    exact ⟨_, .asciiz value, .singleton .text, .asciiz, rfl⟩
  | globl label =>
    obtain ⟨⟨t, span⟩, rfl, rfl⟩ := List.map_eq_singleton_iff.1 same
    exact ⟨_, .globl ⟨label.name, span.start⟩, .singleton .name, .globl .label, rfl⟩

/-- The tokens of a statement without its labels are read as the statement, except for its
places. -/
theorem Nucleus.exists_of_tokens {n : Nucleus} (named : n.Named) {first : Placed}
    {rest : List Placed} (same : (first :: rest).map Placed.token = n.tokens) (span : Span) :
    ∃ n', ofTokens first rest span = .ok n' ∧ n'.moved nowhere = n.moved nowhere := by
  cases n with
  | instr i =>
    obtain ⟨head, others⟩ := List.cons.inj same
    obtain ⟨operands, splits, values⟩ := Operand.exists_splits others
    obtain ⟨i', mnemonic, means, equal⟩ := Instr.exists_of_value values
    have lower : i'.mnemonic.name = i.mnemonic.name.toLower := by
      rw [mnemonic, Mnemonic.toLower_name]
    refine ⟨.instr i', ofTokens_eq_ok.2 ⟨operands, splits, ?_⟩, by rw [moved, moved, equal]⟩
    rw [head]
    exact .instr lower means
  | directive d =>
    obtain ⟨head, others⟩ := List.cons.inj same
    obtain ⟨operands, d', splits, takes, equal⟩ := Directive.exists_takes named others
    rw [← d.toLower_name] at takes
    refine ⟨.directive d', ofTokens_eq_ok.2 ⟨operands, splits, ?_⟩, by rw [moved, moved, equal]⟩
    rw [head]
    exact .directive takes
  | empty => cases same

theorem Argument.tokens_append_ne_colon (a : Argument) (after others : List Token) :
    a.tokens ++ after ≠ .colon :: others := by
  intro same
  cases a with
  | word w => exact Token.number_ne rfl (List.cons.inj same).1
  | address place =>
    cases place with
    | offset n base => exact Token.number_ne rfl (List.cons.inj same).1
    | label l => cases same
  | register | amount | label => cases same

theorem Nucleus.tokens_eq_nil {n : Nucleus} (none : n.tokens = []) : n = .empty := by
  cases n with
  | empty => rfl
  | instr | directive => cases none

/-- The tokens of a statement without its labels do not begin with a label. -/
theorem Nucleus.tokens_ne_label (n : Nucleus) (name : String) (others : List Token) :
    n.tokens ≠ .identifier name :: .colon :: others := by
  cases n with
  | instr i =>
    intro same
    obtain ⟨-, operands⟩ := List.cons.inj same
    cases arguments : i.arguments with
    | nil =>
      rw [arguments] at operands
      cases operands
    | cons a rest =>
      rw [arguments, List.map_cons] at operands
      cases rest with
      | nil => exact a.tokens_append_ne_colon [] others (by simpa using operands)
      | cons b rest =>
        rw [List.map_cons, List.intercalate_cons_cons, List.append_assoc] at operands
        exact a.tokens_append_ne_colon _ others operands
  | directive | empty => nofun

namespace Statement

theorem exists_labels {labels : List Label} {tokens : List Token} {placed : List Placed}
    (same : placed.map Placed.token =
      labels.flatMap (fun l => [.identifier l.name, .colon]) ++ tokens) :
    ∃ (written : List Placed) (labels' : List Label) (rest : List Placed),
      Labels written labels' ∧ placed = written ++ rest ∧
      labels'.map (Label.moved nowhere) = labels.map (Label.moved nowhere) ∧
      rest.map Placed.token = tokens := by
  induction labels generalizing placed with
  | nil => exact ⟨[], [], placed, .nil, rfl, rfl, same⟩
  | cons l labels ih =>
    obtain ⟨⟨_, span⟩, _, rfl, rfl, after⟩ := List.map_eq_cons_iff.1 same
    obtain ⟨⟨_, colon⟩, _, rfl, rfl, others⟩ := List.map_eq_cons_iff.1 after
    obtain ⟨written, labels', rest, reads, rfl, equal, same⟩ := ih others
    refine ⟨_, _, rest, .cons reads, rfl, ?_, same⟩
    rw [List.map_cons, List.map_cons, equal]
    rfl

theorem not_beginsWithLabel_of_tokens {n : Nucleus} {placed : List Placed}
    (same : placed.map Placed.token = n.tokens) : ¬BeginsWithLabel placed := by
  rintro ⟨name, span, colon, rest, rfl⟩
  exact n.tokens_ne_label name _ same.symm

theorem exists_addLine {s : Statement} (named : s.Named) (full : s.nucleus ≠ .empty)
    {line : List Placed} (same : line.map Placed.token = s.tokens) (done : Array Statement) :
    ∃ s', Progress.addLine ⟨done, #[]⟩ line = .ok ⟨done.push s', #[]⟩ ∧
      s'.moved nowhere = s.moved nowhere := by
  obtain ⟨written, labels, rest, reads, rfl, equal, others⟩ := exists_labels same
  have other := not_beginsWithLabel_of_tokens others
  cases rest with
  | nil => exact absurd (Nucleus.tokens_eq_nil others.symm) full
  | cons first rest =>
    obtain ⟨n', read, equal'⟩ := Nucleus.exists_of_tokens named.nucleus others (extent first rest)
    refine ⟨_, Progress.addLine_eq_ok.2 ⟨written, labels, _, reads, rfl, other,
      .inr ⟨first, rest, n', rfl, read, rfl⟩⟩, ?_⟩
    have span : (extent first rest).moved nowhere = s.span.moved nowhere := rfl
    simp [moved, equal, equal', span]

theorem exists_addLine_of_empty {s : Statement} (none : s.nucleus = .empty) {line : List Placed}
    (same : line.map Placed.token = s.tokens) (done : Array Statement) :
    ∃ labels : List Label, Progress.addLine ⟨done, #[]⟩ line = .ok ⟨done, labels.toArray⟩ ∧
      labels.map (Label.moved nowhere) = s.labels.map (Label.moved nowhere) := by
  obtain ⟨written, labels, rest, reads, rfl, equal, others⟩ := exists_labels same
  have other := not_beginsWithLabel_of_tokens others
  rw [none] at others
  refine ⟨labels, Progress.addLine_eq_ok.2 ⟨written, labels, rest, reads, rfl, other,
    .inl ⟨List.map_eq_nil_iff.1 others, ?_⟩⟩, equal⟩
  rw [Array.empty_append]

theorem exists_foldlM_addLine {statements : List Statement} (named : ∀ s ∈ statements, s.Named)
    (full : ∀ s ∈ statements, s.nucleus ≠ .empty) {lines : List (List Placed)}
    (same : lines.map (List.map Placed.token) = statements.map tokens) (done : List Statement) :
    ∃ added : List Statement,
      lines.foldlM Progress.addLine ⟨done.toArray, #[]⟩ = .ok ⟨(done ++ added).toArray, #[]⟩ ∧
        added.map (moved nowhere) = statements.map (moved nowhere) := by
  induction statements generalizing lines done with
  | nil =>
    obtain rfl := List.map_eq_nil_iff.1 same
    exact ⟨[], by rw [List.append_nil]; rfl, rfl⟩
  | cons s statements ih =>
    obtain ⟨line, lines, rfl, head, others⟩ := List.map_eq_cons_iff.1 same
    obtain ⟨name, names⟩ := List.forall_mem_cons.1 named
    obtain ⟨nonempty, fulls⟩ := List.forall_mem_cons.1 full
    obtain ⟨s', read, equal⟩ := exists_addLine name nonempty head done.toArray
    obtain ⟨added, reads, equals⟩ := ih names fulls others (done ++ [s'])
    refine ⟨s' :: added, foldlM_cons_eq_ok.2 ⟨_, read, ?_⟩, ?_⟩
    · rw [List.push_toArray, reads, List.append_assoc, List.singleton_append]
    · rw [List.map_cons, List.map_cons, equal, equals]

end Statement

end Mips
