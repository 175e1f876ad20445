import Mips.Proofs.Lexing
import Mips.Proofs.Signatures

/-!
# Relocation

A source that stands at another place has the same statements at other places: whatever is done to
the positions of tokens is done to the positions in what is read from them, and to nothing else.
Two statements that differ only in their places become equal if all positions are put to zero.
-/
namespace Mips

variable (f : Nat → Nat)

def Span.moved (span : Span) : Span :=
  ⟨f span.start, f span.stop⟩

def Placed.moved (t : Placed) : Placed :=
  ⟨t.token, t.span.moved f⟩

def Label.moved (label : Label) : Label :=
  ⟨label.name, f label.start⟩

def Operand.moved (o : Operand) : Operand :=
  ⟨o.value, o.span.moved f⟩

def Address.moved : Address → Address
  | offset n base => .offset n base
  | label l => .label (l.moved f)

def Argument.moved : Argument → Argument
  | label l => .label (l.moved f)
  | address a => .address (a.moved f)
  | register r => .register r
  | amount n => .amount n
  | word value => .word value

def Instr.moved : Instr → Instr
  | la rd label => .la rd (label.moved f)
  | mem op rt address => .mem op rt (address.moved f)
  | branch op rs rt label => .branch op rs rt (label.moved f)
  | jump op label => .jump op (label.moved f)
  | i => i

def Directive.moved : Directive → Directive
  | globl label => .globl (label.moved f)
  | d => d

def Nucleus.moved : Nucleus → Nucleus
  | instr i => .instr (i.moved f)
  | directive d => .directive (d.moved f)
  | empty => .empty

def Statement.moved (s : Statement) : Statement :=
  ⟨s.labels.map (Label.moved f), s.nucleus.moved f, s.span.moved f⟩

@[simp] theorem Instr.mnemonic_moved (i : Instr) : (i.moved f).mnemonic = i.mnemonic := by
  cases i <;> rfl

@[simp] theorem Instr.arguments_moved (i : Instr) :
    (i.moved f).arguments = i.arguments.map (Argument.moved f) := by
  cases i <;> rfl

variable {f}

theorem Lexes.moved {start : Nat} {text : List Char} {tokens : List Placed}
    (h : Lexes start text tokens) (n : Nat) :
    Lexes (start + n) text (tokens.map (Placed.moved (· + n))) := by
  induction h with
  | nil => exact .nil
  | blank separator _ ih =>
    rw [Nat.add_right_comm] at ih
    exact .blank separator ih
  | comment spelled ends _ ih =>
    rw [Nat.add_right_comm] at ih
    exact .comment spelled ends ih
  | token spelled noComment ends _ ih =>
    rw [Nat.add_right_comm] at ih
    rw [List.map_cons, Placed.moved, Span.moved, Nat.add_right_comm]
    exact .token spelled noComment ends ih

namespace Operand

variable {tokens : List Placed} {operands : List Operand} {o : Operand}

theorem Phrase.moved (h : Phrase tokens o) : Phrase (tokens.map (Placed.moved f)) (o.moved f) := by
  cases h with
  | access hn names => exact .access hn names
  | base names => exact .base names
  | integer hn => exact .integer hn
  | register => exact .register
  | name => exact .name
  | text => exact .text

theorem beginsInParens_of_moved (h : BeginsInParens (tokens.map (Placed.moved f))) :
    BeginsInParens tokens := by
  obtain ⟨_, _, _, _, same⟩ := h
  obtain ⟨⟨_, p⟩, _, rfl, opens, same⟩ := List.map_eq_cons_iff.1 same
  obtain ⟨base, _, rfl, -, same⟩ := List.map_eq_cons_iff.1 same
  obtain ⟨⟨_, c⟩, rest, rfl, closes, -⟩ := List.map_eq_cons_iff.1 same
  cases opens
  cases closes
  exact ⟨p, base, c, rest, rfl⟩

theorem Separator.moved (h : Separator tokens) : Separator (tokens.map (Placed.moved f)) := by
  rcases h with rfl | ⟨span, rfl⟩
  · exact .inl rfl
  · exact .inr ⟨_, rfl⟩

theorem Splits.moved (h : Splits tokens operands) :
    Splits (tokens.map (Placed.moved f)) (operands.map (Operand.moved f)) := by
  induction h with
  | nil => exact .nil
  | cons reads optional alone _ ih =>
    rw [List.map_append, List.map_append, List.map_cons]
    refine .cons reads.moved optional.moved (fun n hn begins => ?_) ih
    rw [← List.map_append] at begins
    exact alone n hn (beginsInParens_of_moved begins)

theorem Means.moved {a : Argument} (h : Means o a) : Means (o.moved f) (a.moved f) := by
  cases h with
  | register => exact .register
  | bareRegister found => exact .bareRegister found
  | amount => exact .amount
  | word => exact .word
  | label => exact .label
  | access => exact .access
  | place => exact .place

theorem forall₂_means_moved {arguments : List Argument}
    (h : List.Forall₂ Means operands arguments) :
    List.Forall₂ Means (operands.map (Operand.moved f)) (arguments.map (Argument.moved f)) :=
  List.forall₂_map_left_iff.2 (List.forall₂_map_right_iff.2 (h.imp fun _ _ => Means.moved))

end Operand

theorem Directive.Takes.moved {name : String} {operands : List Operand} {d : Directive}
    (h : Takes name operands d) : Takes name (operands.map (Operand.moved f)) (d.moved f) := by
  cases h with
  | data => exact .data
  | text => exact .text
  | word nonempty means =>
    refine .word (by simpa using nonempty) ?_
    have same := Operand.forall₂_means_moved (f := f) means
    rw [List.map_map] at same
    exact same
  | asciiz => exact .asciiz
  | globl means => exact .globl means.moved
  | global means => exact .global means.moved

theorem Nucleus.Reads.moved {t : Token} {operands : List Operand} {n : Nucleus}
    (h : Reads t operands n) : Reads t (operands.map (Operand.moved f)) (n.moved f) := by
  cases h with
  | @instr _ _ i same means =>
    refine .instr (by rw [i.mnemonic_moved, same]) ?_
    rw [i.arguments_moved]
    exact Operand.forall₂_means_moved means
  | directive takes => exact .directive takes.moved

/-- A line reads the same wherever it stands. -/
theorem Nucleus.ofTokens_moved {first : Placed} {rest : List Placed} {span span' : Span}
    {n : Nucleus} (h : ofTokens first rest span = .ok n) :
    ofTokens (first.moved f) (rest.map (Placed.moved f)) span' = .ok (n.moved f) := by
  obtain ⟨operands, splits, reads⟩ := ofTokens_eq_ok.1 h
  exact ofTokens_eq_ok.2 ⟨_, splits.moved, reads.moved⟩

end Mips
