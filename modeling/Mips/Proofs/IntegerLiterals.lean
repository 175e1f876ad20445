import Mips.Proofs.KeptTexts
import Mips.Proofs.Magnitudes
import Mips.Proofs.TokenLines

/-!
# Integer literals

A number is cut from a source as the value that its digits denote. Alone it is this number, or the
error of the range that it is not in. The parser loses no number of a source: each is used by the
statement that it stands in, which stores its bits in the place of the operand that it belongs to.
-/
namespace Mips

open Numeral

/-- The text is a magnitude that stands for itself, or with a minus sign for its negative. -/
inductive Numeral.Integer : List Char → Int → Prop
  | unsigned {text : List Char} {n : Nat} : Magnitude text n → Integer text n
  | signed {text : List Char} {n : Nat} : Magnitude text n → Integer ('-' :: text) (-n)

namespace Reading

variable {c : Char} {rest : List Char} {n : Nat}

theorem first_of_magnitude (h : Magnitude (c :: rest) n) : first c rest =
    ⟨c :: rest, [], if n < 2 ^ 32 then .ok (.unsigned n) else .error .tooBigUnsigned⟩ := by
  obtain ⟨_, _, same, digit⟩ := h.exists_cons
  cases same
  have whole : word c (rest ++ []) (fun tail => unsigned (c :: tail)) = _ :=
    word_of_all (List.forall_mem_cons.1 h.isWordChar).2 nofun
  rw [List.append_nil, unsigned_eq h, Nat.one_shiftLeft] at whole
  rw [first_of_not_mark (not_mark_of_isDigit digit), if_pos digit, whole]

theorem first_minus_of_magnitude (h : Magnitude rest n) : first '-' rest =
    ⟨'-' :: rest, [], if n ≤ 2 ^ 31 then .ok (.signed (-n)) else .error .tooBigSigned⟩ := by
  have whole : word '-' (rest ++ []) signed = _ := word_of_all h.isWordChar nofun
  rw [List.append_nil, signed_eq h, Nat.one_shiftLeft] at whole
  exact whole

end Reading

/-- A token is a number just if it is spelt like one, and then it is the number that this is. -/
theorem Token.Spelled.integer?_eq_some {written : List Char} {t : Token}
    (spelled : Spelled written t) {z : Int} : t.integer? = some z ↔ Integer written z := by
  constructor
  · intro value
    cases spelled with
    | signed _ read =>
      obtain ⟨n, magnitude, -, rfl⟩ := Reading.signed_eq_ok.1 read
      cases value
      exact .signed magnitude
    | register _ read =>
      obtain ⟨_, rfl⟩ := Reading.eq_register read
      cases value
    | unsigned _ _ read =>
      obtain ⟨n, magnitude, -, rfl⟩ := Reading.unsigned_eq_ok.1 read
      cases value
      exact .unsigned magnitude
    | _ => cases value
  · intro integer
    obtain ⟨c, rest, rfl, -⟩ := spelled.exists_cons
    have ends : t.EndsBefore [] := nofun
    have read := Reading.first_of_spelled spelled ends
    rw [List.append_nil] at read
    cases integer with
    | unsigned magnitude =>
      rw [Reading.first_of_magnitude magnitude] at read
      split at read
      next => cases read; rfl
      next => cases read
    | signed magnitude =>
      rw [Reading.first_minus_of_magnitude magnitude] at read
      split at read
      next => cases read; rfl
      next => cases read

namespace Lexeme

variable {text : String} {n : Nat}

theorem ofSource_of_first {c : Char} {rest : List Char} {result : Except LexError Token}
    (same : text.toList = c :: rest) (other : isSeparator c = false)
    (read : Reading.first c rest = ⟨c :: rest, [], result⟩) :
    ofSource text = [⟨⟨0, text.utf8ByteSize⟩, result⟩] := by
  rw [ofSource, same, readFrom, if_neg (Bool.eq_false_iff.1 other), read]
  dsimp only
  rw [readFrom, ← same, Text.byteLength_toList, Nat.zero_add]
  rfl

theorem ofSource_of_magnitude (h : Magnitude text.toList n) : ofSource text =
    [⟨⟨0, text.utf8ByteSize⟩,
      if n < 2 ^ 32 then .ok (.unsigned n) else .error .tooBigUnsigned⟩] := by
  obtain ⟨c, rest, same, digit⟩ := h.exists_cons
  have other : isSeparator c = false := by
    rw [isSeparator, Bool.or_eq_false_iff, beq_eq_false_iff_ne, beq_eq_false_iff_ne]
    constructor
    · rintro rfl
      cases digit
    · rintro rfl
      cases digit
  rw [same] at h
  exact ofSource_of_first same other (Reading.first_of_magnitude h)

theorem ofSource_minus_of_magnitude (h : Magnitude text.toList n) : ofSource ("-" ++ text) =
    [⟨⟨0, 1 + text.utf8ByteSize⟩,
      if n ≤ 2 ^ 31 then .ok (.signed (-n)) else .error .tooBigSigned⟩] := by
  have same : ("-" ++ text).toList = '-' :: text.toList := String.toList_append
  rw [ofSource_of_first same (by decide) (Reading.first_minus_of_magnitude h),
    String.utf8ByteSize_append]
  rfl

end Lexeme

namespace Placed

def integers (tokens : List Placed) : List Int :=
  tokens.filterMap fun t => t.token.integer?

variable {t : Placed} {z : Int}

theorem integers_append (before after : List Placed) :
    integers (before ++ after) = integers before ++ integers after :=
  List.filterMap_append ..

theorem integers_cons_of_some (value : t.token.integer? = some z) (tokens : List Placed) :
    integers (t :: tokens) = z :: integers tokens :=
  List.filterMap_cons_some value

theorem integers_cons_of_none (none : t.token.integer? = none) (tokens : List Placed) :
    integers (t :: tokens) = integers tokens :=
  List.filterMap_cons_none none

end Placed

/-- The argument keeps the numbers with which its operand is written. All of them are kept modulo
2^32, but for the amount of a shift, and a base register alone has the offset zero. -/
inductive Argument.Stores : Argument → List Int → Prop
  | register {r : Register} : Stores (.register r) []
  | amount {z : Int} : Stores (.amount (BitVec.ofInt 5 z)) [z]
  | word {z : Int} : Stores (.word (BitVec.ofInt 32 z)) [z]
  | label {l : Label} : Stores (.label l) []
  | offset {z : Int} {base : Register} :
      Stores (.address (.offset (BitVec.ofInt 32 z) base)) [z]
  | base {base : Register} : Stores (.address (.offset 0 base)) []
  | place {l : Label} : Stores (.address (.label l)) []

/-- What a statement carries besides a quoted text, in source order. -/
def Nucleus.arguments : Nucleus → List Argument
  | instr i => i.arguments
  | directive (.word values) => values.map .word
  | directive (.globl l) => [.label l]
  | directive .data | directive .text | directive (.asciiz _) | empty => []

/-- The statement keeps the numbers, each in the argument whose operand it belongs to. -/
def Nucleus.Stores (n : Nucleus) (integers : List Int) : Prop :=
  ∃ pieces, List.Forall₂ Argument.Stores n.arguments pieces ∧ integers = pieces.flatten

namespace Operand

open Placed

variable {o : Operand} {a : Argument} {r : Register} {tokens : List Placed}
  {operands : List Operand} {arguments : List Argument}

theorem NamesBase.integer? {t : Token} (names : NamesBase t r) : t.integer? = none := by
  cases names <;> rfl

theorem Means.stores (means : Means o a) (phrase : Phrase tokens o) :
    a.Stores (integers tokens) := by
  cases phrase with
  | access value names =>
    rw [integers_cons_of_some value, integers_cons_of_none rfl,
      integers_cons_of_none names.integer?]
    cases means
    exact .offset
  | base names =>
    rw [integers_cons_of_none rfl, integers_cons_of_none names.integer?]
    cases means
    exact .base
  | integer value =>
    rw [integers_cons_of_some value]
    cases means with
    | amount => exact .amount
    | word => exact .word
  | register =>
    cases means
    exact .register
  | name =>
    cases means with
    | bareRegister => exact .register
    | label => exact .label
    | place => exact .place
  | text => cases means

theorem Separator.integers_eq_nil (h : Separator tokens) : integers tokens = [] := by
  rcases h with rfl | ⟨span, rfl⟩ <;> rfl

/-- The induction goes along the operands, each of which has its own share of the numbers. -/
theorem Splits.exists_stores (splits : Splits tokens operands)
    (means : List.Forall₂ Means operands arguments) :
    ∃ pieces, List.Forall₂ Argument.Stores arguments pieces ∧ integers tokens = pieces.flatten := by
  induction splits generalizing arguments with
  | nil =>
    cases means
    exact ⟨[], .nil, rfl⟩
  | @cons covered separator rest o operands phrase optional _ _ ih =>
    obtain _ | ⟨meaning, others⟩ := means
    obtain ⟨pieces, stores, same⟩ := ih others
    refine ⟨integers covered :: pieces, .cons (meaning.stores phrase) stores, ?_⟩
    rw [integers_append, integers_append, optional.integers_eq_nil, List.nil_append, same,
      List.flatten_cons]

end Operand

theorem Directive.Takes.stores {name : String} {tokens : List Placed} {operands : List Operand}
    {d : Directive} (takes : Takes name operands d) (splits : Operand.Splits tokens operands) :
    (Nucleus.directive d).Stores (Placed.integers tokens) := by
  cases takes with
  | data | text =>
    cases splits
    exact ⟨[], .nil, rfl⟩
  | word _ means => exact splits.exists_stores means
  | asciiz =>
    obtain _ | ⟨phrase, optional, -, others⟩ := splits
    cases phrase
    cases others
    refine ⟨[], .nil, ?_⟩
    rw [Placed.integers_append, Placed.integers_append, optional.integers_eq_nil]
    rfl
  | globl means | global means => exact splits.exists_stores (.cons means .nil)

theorem Nucleus.stores_of_ofTokens {first : Placed} {rest : List Placed} {span : Span}
    {n : Nucleus} (read : ofTokens first rest span = .ok n) :
    n.Stores (Placed.integers (first :: rest)) := by
  obtain ⟨token, place⟩ := first
  obtain ⟨operands, splits, reads⟩ := ofTokens_eq_ok.1 read
  cases reads with
  | instr _ means =>
    rw [Placed.integers_cons_of_none rfl]
    exact splits.exists_stores means
  | directive takes =>
    rw [Placed.integers_cons_of_none rfl]
    exact takes.stores splits

def Placed.Within (span : Span) (t : Placed) : Prop :=
  span.start ≤ t.span.start ∧ t.span.stop ≤ span.stop

instance (span : Span) : DecidablePred (Placed.Within span) :=
  fun _ => inferInstanceAs (Decidable (_ ∧ _))

namespace Lexes

variable {start : Nat} {text : List Char} {tokens others : List Placed} {first : Placed}

theorem within_extent (full : ∀ t ∈ first :: others, t.span.start < t.span.stop)
    (ordered : (first :: others).Pairwise fun a b => a.span.stop ≤ b.span.start) :
    ∀ t ∈ first :: others, t.Within (Statement.extent first others) := by
  obtain ⟨later, -⟩ := List.pairwise_cons.1 ordered
  obtain ⟨fullFirst, -⟩ := List.forall_mem_cons.1 full
  have begins : ∀ t ∈ first :: others, first.span.start ≤ t.span.start :=
    List.forall_mem_cons.2 ⟨Nat.le_refl _, fun t member =>
      Nat.le_trans (Nat.le_of_lt fullFirst) (later t member)⟩
  obtain ⟨init, all⟩ := Statement.exists_concat_getLastD first others
  generalize last_eq : others.getLastD first = last at all
  have ends : ∀ t ∈ first :: others, t.span.stop ≤ last.span.stop := by
    rw [all] at full ordered ⊢
    obtain ⟨-, -, earlier⟩ := List.pairwise_append.1 ordered
    have fullLast := full last (by simp)
    refine List.forall_mem_append.2 ⟨fun t member => ?_, by simp⟩
    exact Nat.le_trans (earlier t member last (by simp)) (Nat.le_of_lt fullLast)
  intro t member
  rw [Statement.extent, last_eq]
  exact ⟨begins t member, ends t member⟩

/-- Tokens next to each other are all those between the first and the last of them. -/
theorem filter_extent (h : Lexes start text tokens) (inside : first :: others <:+: tokens) :
    tokens.filter (Placed.Within (Statement.extent first others)) = first :: others := by
  obtain ⟨before, after, rfl⟩ := inside
  have ordered := h.pairwise
  have full : ∀ t ∈ before ++ (first :: others) ++ after, t.span.start < t.span.stop :=
    fun t member => (h.within t member).2.1
  rw [List.append_assoc] at full ordered ⊢
  obtain ⟨fullBefore, fullRest⟩ := List.forall_mem_append.1 full
  obtain ⟨fullInside, fullAfter⟩ := List.forall_mem_append.1 fullRest
  obtain ⟨-, orderedRest, front⟩ := List.pairwise_append.1 ordered
  obtain ⟨orderedInside, -, behind⟩ := List.pairwise_append.1 orderedRest
  have none : before.filter (Placed.Within (Statement.extent first others)) = [] := by
    refine List.filter_eq_nil_iff.2 fun t member within => ?_
    have least : first.span.start ≤ t.span.start := (of_decide_eq_true within).1
    have := front t member first (by simp)
    have := fullBefore t member
    omega
  have all : (first :: others).filter (Placed.Within (Statement.extent first others)) =
      first :: others :=
    List.filter_eq_self.2 fun t member =>
      decide_eq_true (within_extent fullInside orderedInside t member)
  have none' : after.filter (Placed.Within (Statement.extent first others)) = [] := by
    refine List.filter_eq_nil_iff.2 fun t member within => ?_
    have most : t.span.stop ≤ (others.getLastD first).span.stop := (of_decide_eq_true within).2
    have := behind _ List.getLastD_mem_cons t member
    have := fullAfter t member
    omega
  rw [List.filter_append, List.filter_append, none, all, none', List.nil_append, List.append_nil]

end Lexes

namespace SourceText

variable (source : String)

def integers : List Int :=
  Placed.integers (tokens source)

/-- The numbers that a source has within a span. -/
def integersIn (span : Span) : List Int :=
  Placed.integers ((tokens source).filter (Placed.Within span))

end SourceText

open SourceText

namespace Statement

/-- The numbers of the source are kept: each is the one that its text stands for, each stands within
just one statement, and a statement stores those within it. -/
structure KeepsIntegers (source : String) (statements : List Statement) : Prop where
  values : ∀ t ∈ SourceText.tokens source, ∀ z, t.token.integer? = some z ↔
    ∃ text, Text.slice? source t.span.start t.span.stop = some text ∧ Integer text.toList z
  all : statements.flatMap (fun s => integersIn source s.span) = integers source
  stored : ∀ s ∈ statements, s.nucleus.Stores (integersIn source s.span)

variable {source : String} {tokens : List Placed}

theorem integersIn_extent (lexes : Lexes 0 source.toList tokens) {first : Placed}
    {others : List Placed} (inside : first :: others <:+: tokens) :
    integersIn source (extent first others) = Placed.integers (first :: others) := by
  rw [integersIn, tokens_eq lexes, lexes.filter_extent inside]

theorem integersIn_stop (lexes : Lexes 0 source.toList tokens) (stop : Nat) :
    integersIn source ⟨stop, stop⟩ = [] := by
  have none : tokens.filter (Placed.Within ⟨stop, stop⟩) = [] := by
    refine List.filter_eq_nil_iff.2 fun t member within => ?_
    obtain ⟨least, most⟩ := of_decide_eq_true within
    obtain ⟨-, full, -⟩ := lexes.within t member
    exact absurd (Nat.le_trans most least) (Nat.not_le.2 full)
  rw [integersIn, tokens_eq lexes, none]
  rfl

theorem Labels.integers_eq_nil {written : List Placed} {labels : List Label}
    (h : Labels written labels) : Placed.integers written = [] := by
  induction h with
  | nil => rfl
  | cons _ ih => rw [Placed.integers_cons_of_none rfl, Placed.integers_cons_of_none rfl, ih]

theorem Progress.integers_addLine {p p' : Progress} (lexes : Lexes 0 source.toList tokens)
    {line : List Placed} (inside : line ∈ lines tokens) (h : p.addLine line = .ok p') :
    p'.statements.toList.flatMap (fun s => integersIn source s.span) =
      p.statements.toList.flatMap (fun s => integersIn source s.span) ++ Placed.integers line := by
  obtain ⟨statements, waiting⟩ := p
  obtain ⟨written, labels, rest, reads, rfl, -, h⟩ := addLine_eq_ok.1 h
  rw [Placed.integers_append, reads.integers_eq_nil, List.nil_append]
  rcases h with ⟨rfl, rfl⟩ | ⟨first, others, n, rfl, -, rfl⟩
  · exact (List.append_nil _).symm
  · have together := (List.suffix_append written _).isInfix.trans (infix_of_mem_lines inside)
    rw [Array.toList_push, List.flatMap_append, List.flatMap_singleton,
      integersIn_extent lexes together]

theorem Progress.integers_foldlM {p : Progress} (lexes : Lexes 0 source.toList tokens)
    (h : (lines tokens).foldlM Progress.addLine ⟨#[], #[]⟩ = .ok p) :
    p.statements.toList.flatMap (fun s => integersIn source s.span) =
      Placed.integers (lines tokens).flatten := by
  refine foldlM_establishes_of_mem (I := fun before p =>
    p.statements.toList.flatMap (fun s => integersIn source s.span) =
      Placed.integers before.flatten) (fun inside added same => ?_) h rfl
  rw [Progress.integers_addLine lexes inside added, same, List.flatten_append,
    List.flatten_singleton, Placed.integers_append]

theorem Progress.integers_finish (p : Progress) (lexes : Lexes 0 source.toList tokens)
    (stop : Nat) : (p.finish stop).flatMap (fun s => integersIn source s.span) =
      p.statements.toList.flatMap fun s => integersIn source s.span := by
  obtain ⟨statements, ⟨waiting⟩⟩ := p
  cases waiting with
  | nil => rfl
  | cons label waiting =>
    rw [finish_cons, List.flatMap_append, List.flatMap_singleton, integersIn_stop lexes,
      List.append_nil]

theorem integers_flatten_lines (tokens : List Placed) :
    Placed.integers (lines tokens).flatten = Placed.integers tokens := by
  rw [flatten_lines, Placed.integers, List.filterMap_filter]
  refine List.filterMap_congr fun t _ => ?_
  split
  next => rfl
  next newline =>
    simp only [decide_eq_true_eq, not_not] at newline
    rw [newline]
    rfl

theorem keepsIntegers_of_parse {statements : List Statement}
    (parsed : parse source = .ok statements) : KeepsIntegers source statements := by
  obtain ⟨tokens, p, lexes, read, finished⟩ := parse_eq_ok.1 parsed
  constructor
  case values =>
    rw [tokens_eq lexes]
    intro t member z
    obtain ⟨written, holds, spelled⟩ := lexes.exists_spelled member
    rw [← String.toList_ofList (l := written)] at holds spelled
    rw [spelled.integer?_eq_some, holds.slice?]
    simp
  case all =>
    rw [← finished, p.integers_finish lexes, Progress.integers_foldlM lexes read,
      integers_flatten_lines, integers, tokens_eq lexes]
  case stored =>
    obtain ⟨tokens, lexes, stand⟩ := standsIn_of_parse parsed
    intro s member
    cases stand s member with
    | line _ inside _ _ read =>
      rw [integersIn_extent lexes inside]
      exact Nucleus.stores_of_ofTokens read
    | trailing =>
      rw [integersIn_stop lexes]
      exact ⟨[], .nil, rfl⟩

/-- A literal alone is the number that its digits denote, or the error of the range that this is
not in, and so it is with a minus sign. The numbers of a source are stored in its statements. -/
theorem integers_keep_values :
    (∀ text : String, IsLiteral text.toList → ∃ n, (∀ m, Magnitude text.toList m ↔ m = n) ∧
      Lexeme.ofSource text = [⟨⟨0, text.utf8ByteSize⟩,
        if n < 2 ^ 32 then .ok (.unsigned n) else .error .tooBigUnsigned⟩] ∧
      Lexeme.ofSource ("-" ++ text) = [⟨⟨0, 1 + text.utf8ByteSize⟩,
        if n ≤ 2 ^ 31 then .ok (.signed (-n)) else .error .tooBigSigned⟩]) ∧
    ∀ source statements, parse source = .ok statements → KeepsIntegers source statements := by
  refine ⟨fun text literal => ?_, fun _ _ => keepsIntegers_of_parse⟩
  obtain ⟨n, magnitude⟩ := Magnitude.exists_iff.2 literal
  refine ⟨n, fun m => ⟨fun other => other.unique magnitude, fun same => same ▸ magnitude⟩, ?_⟩
  exact ⟨Lexeme.ofSource_of_magnitude magnitude, Lexeme.ofSource_minus_of_magnitude magnitude⟩

/-- The ends of both ranges, leading zeros, a number modulo 32, an offset that is not written, and
digits that are no numbers. -/
def boundaries : String :=
  ".data\n.word -0X80000000, 0xfFfFfFfF 0009\n.text # 7\nlw $8 ($9)\nsw $8, -4 (sp)\n" ++
  "sll $8 $8 33\naddi $8 $8 65536"

def boundariesStatements : List Statement :=
  [⟨[], .directive .data, ⟨0, 5⟩⟩,
   ⟨[], .directive (.word [0x80000000, 0xFFFFFFFF, 9]), ⟨6, 40⟩⟩,
   ⟨[], .directive .text, ⟨41, 46⟩⟩,
   ⟨[], .instr (.mem .lw ⟨8⟩ (.offset 0 ⟨9⟩)), ⟨51, 61⟩⟩,
   ⟨[], .instr (.mem .sw ⟨8⟩ (.offset 0xFFFFFFFC .sp)), ⟨62, 76⟩⟩,
   ⟨[], .instr (.shift .sll ⟨8⟩ ⟨8⟩ 1), ⟨77, 89⟩⟩,
   ⟨[], .instr (.imm .addi ⟨8⟩ ⟨8⟩ 65536), ⟨90, 106⟩⟩]

theorem integers_keep_values_boundaries :
    parse boundaries = .ok boundariesStatements ∧
      KeepsIntegers boundaries boundariesStatements ∧
      integers boundaries = [-0x80000000, 0xFFFFFFFF, 9, -4, 33, 65536] ∧
      Lexeme.ofSource "-0X80000000" = [⟨⟨0, 11⟩, .ok (.signed (-0x80000000))⟩] ∧
      Lexeme.ofSource "004294967296" = [⟨⟨0, 12⟩, .error .tooBigUnsigned⟩] := by
  obtain ⟨alone, stored⟩ := integers_keep_values
  have parsed : parse boundaries = .ok boundariesStatements := by decide +kernel
  refine ⟨parsed, stored _ _ parsed, by decide +kernel, ?_, ?_⟩
  · have magnitude : Magnitude "0X80000000".toList 0x80000000 :=
      .hex (.inr rfl) nofun ⟨[0, 0, 0, 0, 0, 0, 0, 8], by decide, by decide⟩
    obtain ⟨n, value, -, minus⟩ := alone _ (Magnitude.exists_iff.1 ⟨_, magnitude⟩)
    obtain rfl := (value _).1 magnitude
    exact minus
  · have magnitude : Magnitude "004294967296".toList (2 ^ 32) :=
      .decimal nofun ⟨[6, 9, 2, 7, 6, 9, 4, 9, 2, 4, 0, 0], by decide, by decide⟩
    obtain ⟨n, value, unsigned, -⟩ := alone _ (Magnitude.exists_iff.1 ⟨_, magnitude⟩)
    obtain rfl := (value _).1 magnitude
    exact unsigned

end Statement

end Mips
