import Mips.Program.Source
import Mips.Proofs.Layout
import Mips.Proofs.LineComposition
import Mips.Proofs.Pieces

/-!
# Texts of instructions in the source

A statement of a source was read from tokens that are next to each other on one line, so that the
piece of the source at its place is read as this statement alone. The labels of the source, where
they are defined and where they are used, are names among its tokens.
-/
namespace Mips

open Operand

def Argument.labels : Argument → List Label
  | label l | address (.label l) => [l]
  | _ => []

/-- The labels that a statement uses, besides those that it defines. -/
def Nucleus.labels : Nucleus → List Label
  | instr i => i.arguments.flatMap Argument.labels
  | directive (.globl l) => [l]
  | _ => []

def Label.StandsIn (l : Label) (tokens : List Placed) : Prop :=
  ∃ span, ⟨.identifier l.name, span⟩ ∈ tokens ∧ span.start = l.start

theorem Label.StandsIn.mono {l : Label} {tokens others : List Placed} (stands : l.StandsIn tokens)
    (inside : tokens ⊆ others) : l.StandsIn others := by
  obtain ⟨span, member, start⟩ := stands
  exact ⟨span, inside member, start⟩

theorem Label.StandsIn.holds {l : Label} {tokens : List Placed} {text : List Char}
    (stands : l.StandsIn tokens) (lexes : Lexes 0 text tokens) :
    l.span.Holds 0 text l.name.toList := by
  obtain ⟨span, member, start⟩ := stands
  obtain ⟨before, after, same, rfl⟩ := lexes.holds_name member rfl
  refine ⟨before, after, same, ?_⟩
  rw [Label.span, ← start, ← Text.byteLength_toList]

namespace Operand

variable {o : Operand} {tokens : List Placed} {operands : List Operand} {name : String}

theorem Phrase.mem_of_name (h : Phrase tokens o) (named : o.value = .name name) :
    ⟨.identifier name, o.span⟩ ∈ tokens := by
  cases h with
  | name =>
    cases named
    exact List.mem_singleton_self _
  | access | base | integer | register | text => cases named

theorem Splits.mem_of_name (h : Splits tokens operands) (member : o ∈ operands)
    (named : o.value = .name name) : ⟨.identifier name, o.span⟩ ∈ tokens := by
  induction h with
  | nil => cases member
  | cons phrase _ _ _ ih =>
    rcases List.mem_cons.1 member with rfl | member
    · exact List.mem_append_left _ (phrase.mem_of_name named)
    · exact List.mem_append_right _ (List.mem_append_right _ (ih member))

theorem Means.label_eq {a : Argument} {l : Label} (h : Means o a) (member : l ∈ a.labels) :
    o.value = .name l.name ∧ o.span.start = l.start := by
  cases h with
  | label | place =>
    obtain rfl := List.mem_singleton.1 member
    exact ⟨rfl, rfl⟩
  | register | bareRegister | amount | word | access => cases member

theorem standsIn_of_means {arguments : List Argument}
    (means : List.Forall₂ Means operands arguments)
    (named : ∀ o ∈ operands, ∀ name, o.value = .name name → ⟨.identifier name, o.span⟩ ∈ tokens) :
    ∀ l ∈ arguments.flatMap Argument.labels, l.StandsIn tokens := by
  induction means with
  | nil => nofun
  | @cons o a _ _ meaning _ ih =>
    obtain ⟨first, others⟩ := List.forall_mem_cons.1 named
    rw [List.flatMap_cons, List.forall_mem_append]
    refine ⟨fun l member => ?_, ih others⟩
    obtain ⟨same, start⟩ := meaning.label_eq member
    exact ⟨o.span, first l.name same, start⟩

end Operand

theorem Directive.Takes.standsIn {name : String} {operands : List Operand} {d : Directive}
    {tokens : List Placed} (h : Takes name operands d)
    (named : ∀ o ∈ operands, ∀ name, o.value = .name name → ⟨.identifier name, o.span⟩ ∈ tokens) :
    ∀ l ∈ (Nucleus.directive d).labels, l.StandsIn tokens := by
  cases h with
  | data | text | word | asciiz => nofun
  | globl means | global means =>
    have one := Operand.standsIn_of_means (List.Forall₂.cons means .nil) named
    exact one

theorem Nucleus.standsIn_of_ofTokens {first : Placed} {rest : List Placed} {span : Span}
    {n : Nucleus} (read : ofTokens first rest span = .ok n) :
    ∀ l ∈ n.labels, l.StandsIn rest := by
  obtain ⟨token, place⟩ := first
  obtain ⟨operands, splits, reads⟩ := ofTokens_eq_ok.1 read
  have named : ∀ o ∈ operands, ∀ name, o.value = .name name →
      ⟨.identifier name, o.span⟩ ∈ rest := fun o member name => splits.mem_of_name member
  cases reads with
  | instr _ means => exact Operand.standsIn_of_means means named
  | directive takes => exact takes.standsIn named

namespace Statement

/-- The statement was read from the tokens of a source of `stop` bytes: from some next to each other
on a line, or from labels alone, at the end of the source. Its labels are among the tokens. -/
inductive StandsIn (tokens : List Placed) (stop : Nat) : Statement → Prop
  | line {labels : List Label} {first : Placed} {others : List Placed} {n : Nucleus} :
      (∀ l ∈ labels, l.StandsIn tokens) → first :: others <:+: tokens →
      (∀ t ∈ first :: others, t.token ≠ .newline) → ¬BeginsWithLabel (first :: others) →
      Nucleus.ofTokens first others (extent first others) = .ok n →
      StandsIn tokens stop ⟨labels, n, extent first others⟩
  | trailing {labels : List Label} : (∀ l ∈ labels, l.StandsIn tokens) →
      StandsIn tokens stop ⟨labels, .empty, ⟨stop, stop⟩⟩

theorem Labels.standsIn {written : List Placed} {labels : List Label} (h : Labels written labels) :
    ∀ l ∈ labels, l.StandsIn written := by
  induction h with
  | nil => nofun
  | @cons name span colon tokens labels _ ih =>
    refine List.forall_mem_cons.2 ⟨⟨span, List.mem_cons_self, rfl⟩, fun l member => ?_⟩
    exact (ih l member).mono fun t inside => List.mem_cons_of_mem _ (List.mem_cons_of_mem _ inside)

namespace Progress

structure StandsIn (tokens : List Placed) (stop : Nat) (p : Progress) : Prop where
  statements : ∀ s ∈ p.statements.toList, s.StandsIn tokens stop
  waiting : ∀ l ∈ p.waiting.toList, l.StandsIn tokens

variable {tokens : List Placed} {stop : Nat} {p p' : Progress}

theorem StandsIn.addLine (stands : p.StandsIn tokens stop) {line : List Placed}
    (inside : line ∈ lines tokens) (h : p.addLine line = .ok p') : p'.StandsIn tokens stop := by
  obtain ⟨statements, waiting⟩ := p
  obtain ⟨before, names⟩ := stands
  obtain ⟨written, labels, rest, reads, rfl, other, h⟩ := addLine_eq_ok.1 h
  have together := infix_of_mem_lines inside
  have level := (List.forall_mem_append.1 (ne_newline_of_mem_lines inside)).2
  have all : ∀ l ∈ waiting.toList ++ labels, l.StandsIn tokens := List.forall_mem_append.2
    ⟨names, fun l member => (reads.standsIn l member).mono
      (List.Subset.trans (List.subset_append_left written rest) together.subset)⟩
  rcases h with ⟨-, rfl⟩ | ⟨first, others, n, rfl, read, rfl⟩
  · exact ⟨before, by simpa using all⟩
  · refine ⟨?_, nofun⟩
    rw [Array.toList_push]
    refine List.forall_mem_append.2 ⟨before, List.forall_mem_singleton.2 ?_⟩
    exact .line all ((List.suffix_append written _).isInfix.trans together) level other read

theorem StandsIn.finish (stands : p.StandsIn tokens stop) :
    ∀ s ∈ p.finish stop, s.StandsIn tokens stop := by
  obtain ⟨statements, ⟨waiting⟩⟩ := p
  cases waiting with
  | nil => exact stands.statements
  | cons label waiting =>
    rw [finish_cons]
    exact List.forall_mem_append.2
      ⟨stands.statements, List.forall_mem_singleton.2 (.trailing stands.waiting)⟩

end Progress

/-- The statements of a source were read from its tokens. -/
theorem standsIn_of_parse {source : String} {statements : List Statement}
    (parsed : parse source = .ok statements) : ∃ tokens, Lexes 0 source.toList tokens ∧
      ∀ s ∈ statements, s.StandsIn tokens source.utf8ByteSize := by
  obtain ⟨tokens, p, lexes, read, rfl⟩ := parse_eq_ok.1 parsed
  have start : Progress.StandsIn tokens source.utf8ByteSize ⟨#[], #[]⟩ := ⟨nofun, nofun⟩
  have stands := foldlM_establishes_of_mem
    (I := fun _ p => p.StandsIn tokens source.utf8ByteSize)
    (fun inside h stands => stands.addLine inside h) read start
  exact ⟨tokens, lexes, stands.finish⟩

theorem StandsIn.labels {tokens : List Placed} {stop : Nat} {s : Statement}
    (stands : s.StandsIn tokens stop) : ∀ l ∈ s.labels ++ s.nucleus.labels, l.StandsIn tokens := by
  cases stands with
  | line names inside _ _ read =>
    refine List.forall_mem_append.2 ⟨names, fun l member => ?_⟩
    exact (Nucleus.standsIn_of_ofTokens read l member).mono
      (List.Subset.trans (List.subset_cons_self _ _) inside.subset)
  | trailing names => exact List.forall_mem_append.2 ⟨names, nofun⟩

end Statement

/-- Where a text stands only matters for the places of its tokens. -/
theorem Lexes.exists_unmoved {start n : Nat} {text : List Char} {tokens : List Placed}
    (h : Lexes (start + n) text tokens) : ∃ tokens', Lexes start text tokens' ∧
      tokens = tokens'.map (Placed.moved (· + n)) := by
  generalize here : start + n = place at h
  induction h generalizing start with
  | nil => exact ⟨[], .nil, rfl⟩
  | blank separator _ ih =>
    obtain ⟨tokens, lexes, rfl⟩ := ih (by rw [← here, Nat.add_right_comm])
    exact ⟨tokens, .blank separator lexes, rfl⟩
  | comment spelled ends _ ih =>
    obtain ⟨tokens, lexes, rfl⟩ := ih (by rw [← here, Nat.add_right_comm])
    exact ⟨tokens, .comment spelled ends lexes, rfl⟩
  | token spelled noComment ends _ ih =>
    obtain ⟨tokens, lexes, rfl⟩ := ih (by rw [← here, Nat.add_right_comm])
    refine ⟨_, .token spelled noComment ends lexes, ?_⟩
    rw [List.map_cons, Placed.moved, Span.moved, ← here, Nat.add_right_comm]

theorem Nucleus.exists_unmoved {first : Placed} {rest : List Placed} {span : Span}
    {n : Nucleus} {k : Nat} (span' : Span)
    (read : ofTokens (first.moved (· + k)) (rest.map (Placed.moved (· + k))) span = .ok n) :
    ∃ n', ofTokens first rest span' = .ok n' ∧ n = n'.moved (· + k) := by
  have back : ∀ t : Placed, (t.moved (· + k)).moved (· - k) = t := by
    rintro ⟨token, start, stop⟩
    simp [Placed.moved, Span.moved]
  have unmoved : ofTokens _ _ span' = .ok (n.moved (· - k)) := ofTokens_moved read
  rw [List.map_map, back, show Placed.moved (· - k) ∘ Placed.moved (· + k) = id from funext back,
    List.map_id] at unmoved
  have again : ofTokens _ _ span = .ok ((n.moved (· - k)).moved (· + k)) := ofTokens_moved unmoved
  rw [read] at again
  exact ⟨_, unmoved, Except.ok.inj again⟩

namespace Statement

theorem parse_of_lexes {text : String} {first : Placed} {others : List Placed}
    (lexes : Lexes 0 text.toList (first :: others))
    (level : ∀ t ∈ first :: others, t.token ≠ .newline)
    (other : ¬BeginsWithLabel (first :: others)) {n : Nucleus}
    (read : Nucleus.ofTokens first others (extent first others) = .ok n) :
    parse text = .ok [⟨[], n, extent first others⟩] := by
  refine parse_eq_ok.2 ⟨_, ⟨#[⟨[], n, extent first others⟩], #[]⟩, lexes, ?_, rfl⟩
  rw [lines_of_forall_ne level]
  refine foldlM_cons_eq_ok.2 ⟨_, Progress.addLine_eq_ok.2 ?_, rfl⟩
  exact ⟨[], [], _, .nil, rfl, other, .inr ⟨first, others, n, rfl, read, rfl⟩⟩

theorem beginsWithLabel_moved {f : Nat → Nat} {tokens : List Placed} (h : BeginsWithLabel tokens) :
    BeginsWithLabel (tokens.map (Placed.moved f)) := by
  obtain ⟨name, span, colon, rest, rfl⟩ := h
  exact ⟨name, _, _, _, rfl⟩

/-- The piece that the tokens of a statement hold is read as this statement, at the beginning of a
text. -/
theorem exists_parse_piece {k : Nat} {piece : String} {first : Placed} {others : List Placed}
    (lexes : Lexes k piece.toList (first :: others))
    (place : extent first others = ⟨k, k + piece.utf8ByteSize⟩)
    (level : ∀ t ∈ first :: others, t.token ≠ .newline)
    (other : ¬BeginsWithLabel (first :: others)) {n : Nucleus}
    (read : Nucleus.ofTokens first others (extent first others) = .ok n) :
    ∃ n', parse piece = .ok [⟨[], n', ⟨0, piece.utf8ByteSize⟩⟩] ∧ n = n'.moved (· + k) := by
  rw [← Nat.zero_add k] at lexes
  obtain ⟨tokens, unmoved, moved⟩ := lexes.exists_unmoved
  obtain ⟨first, others, rfl, rfl, rfl⟩ := List.map_eq_cons_iff.1 moved.symm
  rw [extent_moved, Span.moved, Span.mk.injEq] at place
  have span : extent first others = ⟨0, piece.utf8ByteSize⟩ := by
    obtain ⟨start, stop⟩ := place
    cases same : extent first others with
    | mk a b =>
      rw [same] at start stop
      change a + k = k at start
      change b + k = k + piece.utf8ByteSize at stop
      rw [Span.mk.injEq]
      omega
  obtain ⟨n', read', same⟩ := Nucleus.exists_unmoved (extent first others) read
  refine ⟨n', ?_, same⟩
  rw [← span]
  refine parse_of_lexes unmoved (fun t member => ?_) (fun begins => ?_) read'
  · rw [← List.map_cons, List.forall_mem_map] at level
    exact level t member
  · exact other (beginsWithLabel_moved begins)

/-- An instruction of a source is read again from the piece of the source at its place, alone and
with its labels as much earlier as the piece is. -/
theorem StandsIn.exists_text {source : String} {tokens : List Placed} {stop : Nat}
    {s : Statement} {i : Instr} (stands : s.StandsIn tokens stop)
    (lexes : Lexes 0 source.toList tokens) (instr : s.nucleus = .instr i) :
    ∃ text i', Text.slice? source s.span.start s.span.stop = some text ∧
      '\n' ∉ text.toList ∧ parse text = .ok [⟨[], .instr i', ⟨0, text.utf8ByteSize⟩⟩] ∧
        i = i'.moved (· + s.span.start) := by
  cases stands with
  | trailing => cases instr
  | @line labels first others n _ inside level other read =>
    obtain ⟨piece, holds, alone⟩ := lexes.exists_piece inside
    obtain ⟨text, rfl⟩ : ∃ text : String, piece = text.toList :=
      ⟨.ofList piece, String.toList_ofList.symm⟩
    have found := holds.slice?
    have level' := alone.newline_not_mem level
    obtain ⟨before, after, -, place⟩ := holds
    have begins : first.span.start = 0 + Text.byteLength before := congrArg Span.start place
    rw [begins] at alone
    rw [Text.byteLength_toList] at place
    obtain ⟨n', alone, same⟩ := exists_parse_piece alone place level other read
    cases instr
    cases n' with
    | instr i' =>
      refine ⟨text, i', found, level', alone, ?_⟩
      rw [place]
      exact Nucleus.instr.inj same
    | directive | empty => cases same

end Statement

namespace Program

variable {source : String} {p : Program}

theorem ofSource_eq_ok : ofSource source = .ok p ↔ ∃ statements,
    Statement.parse source = .ok statements ∧ assemble statements (some source) = .ok p := by
  unfold ofSource
  cases Statement.parse source with
  | error e => simp
  | ok statements =>
    simp only [Except.ok.injEq, exists_eq_left']
    cases assemble statements (some source) with
    | error e => simp
    | ok p' => simp

/-- Every slot was made from an instruction of the statements and stands where it does. -/
theorem exists_statement_of_slot {statements : List Statement} {kept : Option String}
    (h : assemble statements kept = .ok p) {n : Nat} {slot : Slot} (hn : p.slots[n]? = some slot) :
    ∃ s ∈ statements, s.nucleus = .instr slot.instr ∧ s.span = slot.span := by
  have member : slot.source ∈ p.slots.toList.map Slot.source :=
    List.mem_map_of_mem (Array.mem_toList_iff.2 (Array.mem_of_getElem? hn))
  rw [source_slots_of_assemble h] at member
  obtain ⟨s, inside, same⟩ := List.mem_filterMap.1 member
  exact ⟨s, inside, Statement.instr?_eq_some.1 same⟩

/-- Each instruction of a program is shown as it stands in the source, on one line, and what is
shown is read as this instruction alone, with its labels as much earlier as it stands behind the
beginning of the source. All labels of the source stand where they say. -/
theorem instrs_read_from_their_texts (h : ofSource source = .ok p) :
    (∀ (n : Nat) (slot : Slot), p.slots[n]? = some slot → ∃ text i, p.instrText? n = some text ∧
      '\n' ∉ text.toList ∧ Statement.parse text = .ok [⟨[], .instr i, ⟨0, text.utf8ByteSize⟩⟩] ∧
        slot.instr = i.moved (· + slot.span.start)) ∧
    ∃ statements, Statement.parse source = .ok statements ∧ ∀ s ∈ statements,
      ∀ l ∈ s.labels ++ s.nucleus.labels,
        Text.slice? source l.span.start l.span.stop = some l.name := by
  obtain ⟨statements, parsed, assembled⟩ := ofSource_eq_ok.1 h
  obtain ⟨tokens, lexes, stand⟩ := Statement.standsIn_of_parse parsed
  refine ⟨fun n slot hn => ?_, statements, parsed, fun s inside l member => ?_⟩
  · obtain ⟨s, inside, instr, place⟩ := exists_statement_of_slot assembled hn
    obtain ⟨text, i, found, level, alone, same⟩ := (stand s inside).exists_text lexes instr
    rw [place] at found same
    have kept : p.source = some source := by
      obtain ⟨c, l, -, -, same⟩ := assemble_eq_ok.1 assembled
      rw [same]
    refine ⟨text, i, ?_, level, alone, same⟩
    rw [instrText?, hn, Option.bind_some, slotText?, kept]
    exact found
  · exact ((stand s inside).labels l member).holds lexes |>.slice?

/-- Labels with a letter of two bytes, comments behind statements and on a line of their own, a line
end of two characters, and an instruction with a comma at its end. -/
def annotated : String :=
  "aπ: # é\r\n\tb: Beq T0 , $0 aπ# é\n lw $t1 4 ( sp ),"

def annotatedStatements : List Statement :=
  [⟨[⟨"aπ", 0⟩, ⟨"b", 12⟩], .instr (.branch .beq ⟨8⟩ .zero ⟨"aπ", 27⟩), ⟨15, 30⟩⟩,
   ⟨[], .instr (.mem .lw ⟨9⟩ (.offset 4 .sp)), ⟨36, 52⟩⟩]

theorem instrs_read_from_their_texts_annotated : ∃ p i, ofSource annotated = .ok p ∧
    p.instrText? 0 = some "Beq T0 , $0 aπ" ∧ p.instrText? 1 = some "lw $t1 4 ( sp )," ∧
      Statement.parse "Beq T0 , $0 aπ" = .ok [⟨[], .instr i, ⟨0, 15⟩⟩] ∧
        .branch .beq ⟨8⟩ .zero ⟨"aπ", 27⟩ = i.moved (· + 15) ∧
          Text.slice? annotated 0 3 = some "aπ" := by
  have parsed : Statement.parse annotated = .ok annotatedStatements := by decide +kernel
  have assembled : assemble annotatedStatements (some annotated) = .ok _ := rfl
  have accepted := ofSource_eq_ok.2 ⟨_, parsed, assembled⟩
  obtain ⟨texts, statements, parsed', labels⟩ := instrs_read_from_their_texts accepted
  obtain ⟨text, i, found, -, alone, same⟩ := texts 0 _ rfl
  have first : Text.slice? annotated 15 30 = some "Beq T0 , $0 aπ" := by decide +kernel
  have second : Text.slice? annotated 36 52 = some "lw $t1 4 ( sp )," := by decide +kernel
  cases first.symm.trans found
  cases parsed.symm.trans parsed'
  have label := labels _ List.mem_cons_self ⟨"aπ", 0⟩ (by decide)
  exact ⟨_, i, accepted, first, second, alone, same, label⟩

end Program

end Mips
