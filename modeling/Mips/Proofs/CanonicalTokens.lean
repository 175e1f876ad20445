import Mips.Proofs.Lines
import Mips.Proofs.Relocation
import Mips.Proofs.TokenTexts

/-!
# Tokens of canonical texts

The canonical text of a statement has the tokens that say what the statement is.
-/
namespace Mips

open Text

namespace Argument

def text : Argument → String
  | register r => r.text
  | amount n => Numeral.decimal n.toNat
  | word value => Word.signedText value
  | label l => l.name
  | address a => a.text

def tokens : Argument → List Token
  | register r => [.register r]
  | amount n => [.unsigned n.toNat]
  | word value => [.number value.toInt]
  | label l => [.identifier l.name]
  | address (.offset n base) => [.number n.toInt, .openParen, .register base, .closeParen]
  | address (.label l) => [.identifier l.name]

/-- What the operand is as which the text of the argument is read. -/
def value : Argument → Operand.Value
  | register r => .register r
  | amount n => .integer n.toNat
  | word value => .integer value.toInt
  | label l => .name l.name
  | address (.offset n base) => .access n.toInt base
  | address (.label l) => .name l.name

def Named : Argument → Prop
  | label l | address (.label l) => IsName l.name
  | _ => True

theorem newline_not_mem_tokens (a : Argument) : Token.newline ∉ a.tokens := by
  have number (z : Int) : Token.newline ≠ Token.number z := (Token.number_ne rfl).symm
  cases a with
  | word w => simp [tokens, number]
  | address place => cases place <;> simp [tokens, number]
  | register | amount | label => simp [tokens]

theorem newline_not_mem_intercalate (arguments : List Argument) :
    Token.newline ∉ [Token.comma].intercalate (arguments.map tokens) := by
  induction arguments with
  | nil => exact List.not_mem_nil
  | cons a arguments ih =>
    have first := a.newline_not_mem_tokens
    cases arguments with
    | nil =>
      rw [List.map_singleton, List.intercalate_singleton]
      exact first
    | cons b arguments =>
      rw [List.map_cons, List.map_cons, List.intercalate_cons_cons, ← List.map_cons,
        List.mem_append, List.mem_append, not_or, not_or]
      exact ⟨⟨first, by simp⟩, ih⟩

theorem writes {a : Argument} (named : a.Named) : Writes a.text.toList a.tokens := by
  cases a with
  | register r => exact .of_spelled (Token.spelled_register r) nofun
  | amount n =>
    have small : n.toNat < 1 <<< 32 := Nat.lt_trans n.isLt (by decide)
    rw [text, Numeral.decimal, Numeral.digits, String.toList_ofList]
    exact .of_spelled (Token.spelled_of_magnitude (.of_toDigits _) small) nofun
  | word value => exact .of_spelled (Token.spelled_signedText value) (Token.number_ne rfl)
  | label l => exact .of_spelled (Token.spelled_of_isName named) nofun
  | address place =>
    cases place with
    | label l => exact .of_spelled (Token.spelled_of_isName named) nofun
    | offset n base =>
      have number := Writes.of_spelled (Token.spelled_signedText n) (Token.number_ne rfl)
      have opens : Writes ['('] [.openParen] := .of_spelled .openParen nofun
      have register := Writes.of_spelled (Token.spelled_register base) nofun
      have closes : Writes [')'] [.closeParen] := .of_spelled .closeParen nofun
      have inner := (number.append opens (endsWord_cons (by decide))).append register
        (Token.endsWord_register base)
      simp only [text, Address.text, String.toList_append]
      exact inner.append closes (endsWord_cons (by decide))

theorem writes_intercalate {arguments : List Argument} (named : ∀ a ∈ arguments, a.Named) :
    Writes (String.intercalate ", " (arguments.map text)).toList
      ([Token.comma].intercalate (arguments.map tokens)) := by
  rw [String.toList_intercalate, List.map_map]
  refine .intercalate ?_
  rw [List.forall₂_map_left_iff, List.forall₂_map_right_iff, List.forall₂_same]
  exact fun a member => writes (named a member)

end Argument

theorem Instr.operandTexts_eq_map (i : Instr) : i.operandTexts = i.arguments.map Argument.text := by
  cases i <;> rfl

namespace Directive

def name : Directive → String
  | data => "data"
  | text => "text"
  | word _ => "word"
  | asciiz _ => "asciiz"
  | globl _ => "globl"

def names : List String :=
  ["data", "text", "word", "asciiz", "globl"]

theorem name_mem_names (d : Directive) : d.name ∈ names := by
  cases d <;> simp [names, name]

def operandTokens : Directive → List Token
  | data | text => []
  | word values => [Token.comma].intercalate (values.map fun w => [.number w.toInt])
  | asciiz value => [.text value]
  | globl label => [.identifier label.name]

end Directive

namespace Nucleus

def tokens : Nucleus → List Token
  | instr i =>
    .identifier i.mnemonic.name :: [Token.comma].intercalate (i.arguments.map Argument.tokens)
  | directive d => .directive d.name :: d.operandTokens
  | empty => []

/-- The labels in the statement can be written, and there is no word directive without a word. -/
def Named : Nucleus → Prop
  | instr i => ∀ a ∈ i.arguments, a.Named
  | directive (.word values) => values ≠ []
  | directive (.globl label) => IsName label.name
  | _ => True

/-- A text in the statement has only characters that come back from its canonical form. -/
def Plain : Nucleus → Prop
  | directive (.asciiz value) => ∀ c ∈ value.toList, IsPlain c
  | _ => True

instance (n : Nucleus) : Decidable n.Plain :=
  match n with
  | directive (.asciiz value) => List.decidableBAll IsPlain value.toList
  | instr _ | directive .data | directive .text | directive (.word _) | directive (.globl _)
  | empty => .isTrue trivial

theorem newline_not_mem_tokens (n : Nucleus) : Token.newline ∉ n.tokens := by
  cases n with
  | instr i =>
    rw [tokens, List.mem_cons, not_or]
    exact ⟨by simp, Argument.newline_not_mem_intercalate i.arguments⟩
  | directive d =>
    rw [tokens, List.mem_cons, not_or]
    refine ⟨by simp, ?_⟩
    cases d with
    | word values =>
      have words := Argument.newline_not_mem_intercalate (values.map .word)
      rw [List.map_map] at words
      exact words
    | data | text | asciiz | globl => simp [Directive.operandTokens]
  | empty => exact List.not_mem_nil

end Nucleus

theorem Text.isName_of_all {name : String} (starts : name.toList.head?.any isNameStart = true)
    (all : name.toList.all isWordChar = true) : IsName name := by
  cases same : name.toList with
  | nil =>
    rw [same] at starts
    cases starts
  | cons c rest =>
    rw [same] at starts all
    exact ⟨c, rest, same, starts, (List.forall_mem_cons.1 (List.all_eq_true.1 all)).2⟩

theorem Mnemonic.isName_name (m : Mnemonic) : IsName m.name := by
  have all : ∀ m ∈ Mnemonic.all, m.name.toList.head?.any isNameStart = true ∧
      m.name.toList.all isWordChar = true := by decide +kernel
  obtain ⟨starts, word⟩ := all m m.mem_all
  exact Text.isName_of_all starts word

theorem Directive.isName_name (d : Directive) : IsName d.name := by
  have all : ∀ name ∈ names, name.toList.head?.any isNameStart = true ∧
      name.toList.all isWordChar = true := by decide +kernel
  obtain ⟨starts, word⟩ := all d.name d.name_mem_names
  exact Text.isName_of_all starts word

theorem Writes.name_blank {name : String} {text : List Char} {tokens : List Token} (h : IsName name)
    (after : Writes text tokens) :
    Writes (name.toList ++ ' ' :: text) (.identifier name :: tokens) :=
  (Writes.of_spelled (Token.spelled_of_isName h) nofun).append after.blank
    (endsWord_cons (by decide))

theorem MachineInstr.lineText_cons {name operand : String} {operands : List String} :
    lineText name (operand :: operands) =
      name ++ " " ++ String.intercalate ", " (operand :: operands) := rfl

theorem Instr.writes {i : Instr} (named : ∀ a ∈ i.arguments, a.Named) :
    Writes i.text.toList (Nucleus.instr i).tokens := by
  have operands := Argument.writes_intercalate named
  have name := Mnemonic.isName_name i.mnemonic
  rw [text, operandTexts_eq_map, Nucleus.tokens]
  cases arguments : i.arguments with
  | nil => exact .of_spelled (Token.spelled_of_isName name) nofun
  | cons a others =>
    rw [arguments] at operands
    have line := Writes.name_blank name operands
    rw [List.map_cons, MachineInstr.lineText_cons, String.toList_append, String.toList_append,
      List.append_assoc]
    exact line

theorem Directive.toList_toText (d : Directive) : d.toText.toList = '.' :: d.name.toList ++
    match d with
    | data | text => []
    | word values => ' ' :: (String.intercalate ", " (values.map Word.signedText)).toList
    | asciiz value => ' ' :: (quoted value).toList
    | globl label => ' ' :: label.name.toList := by
  have word : ".word ".toList = '.' :: "word".toList ++ [' '] := rfl
  have asciiz : ".asciiz ".toList = '.' :: "asciiz".toList ++ [' '] := rfl
  have globl : ".globl ".toList = '.' :: "globl".toList ++ [' '] := rfl
  cases d with
  | data | text => rfl
  | word => rw [toText, String.toList_append, word, List.append_assoc, name, List.singleton_append]
  | asciiz =>
    rw [toText, String.toList_append, asciiz, List.append_assoc, name, List.singleton_append]
  | globl =>
    rw [toText, String.toList_append, globl, List.append_assoc, name, List.singleton_append]

theorem Directive.writes {d : Directive} (named : (Nucleus.directive d).Named)
    (plain : (Nucleus.directive d).Plain) :
    Writes d.toText.toList (Nucleus.directive d).tokens := by
  have name : Writes ('.' :: d.name.toList) [.directive d.name] :=
    .of_spelled (Token.spelled_directive d.isName_name) nofun
  rw [toList_toText]
  cases d with
  | data => exact name
  | text => exact name
  | word values =>
    have words : ∀ a ∈ values.map Argument.word, a.Named := by simp [Argument.Named]
    have operands := Argument.writes_intercalate words
    rw [List.map_map, List.map_map] at operands
    exact name.append operands.blank (endsWord_cons (by decide))
  | asciiz value =>
    have text := Writes.of_spelled (Token.spelled_quoted plain) nofun
    exact name.append text.blank (endsWord_cons (by decide))
  | globl label =>
    have operand := Writes.of_spelled (Token.spelled_of_isName named) nofun
    exact name.append operand.blank (endsWord_cons (by decide))

theorem Nucleus.writes {n : Nucleus} (named : n.Named) (plain : n.Plain) :
    Writes n.text.toList n.tokens := by
  cases n with
  | instr i => exact Instr.writes named
  | directive d => exact Directive.writes named plain
  | empty => exact .nil

namespace Statement

def tokens (s : Statement) : List Token :=
  s.labels.flatMap (fun l => [.identifier l.name, .colon]) ++ s.nucleus.tokens

theorem newline_not_mem_tokens (s : Statement) : Token.newline ∉ s.tokens := by
  rw [tokens, List.mem_append, not_or]
  exact ⟨by simp, s.nucleus.newline_not_mem_tokens⟩

structure Named (s : Statement) : Prop where
  labels : ∀ l ∈ s.labels, IsName l.name
  nucleus : s.nucleus.Named

theorem writes {s : Statement} (named : s.Named) (plain : s.nucleus.Plain) :
    Writes s.text.toList s.tokens := by
  obtain ⟨labels, nucleus, span⟩ := s
  obtain ⟨names, inside⟩ := named
  simp only [text, tokens, String.toList_append, String.toList_join, List.flatMap_map] at *
  induction labels with
  | nil => exact nucleus.writes inside plain
  | cons l labels ih =>
    obtain ⟨first, others⟩ := List.forall_mem_cons.1 names
    have colon : Writes [':'] [.colon] := .of_spelled .colon nofun
    have label : Writes l.name.toList [.identifier l.name] :=
      .of_spelled (Token.spelled_of_isName first) nofun
    have line := (label.append colon (endsWord_cons (by decide))).append (ih others).blank
      (endsWord_cons (by decide))
    simp only [List.flatMap_cons, List.append_assoc] at line ⊢
    exact line

end Statement

end Mips
