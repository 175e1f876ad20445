import Mathlib.Data.List.Flatten
import Mips.Proofs.Signatures
import Mips.Proofs.TokenLines

/-!
# Definitions of labels

A line defines the names with a colon after them that it begins with. The parser keeps every
definition once and in order: with the first statement that begins on its line or on a later one, or
with a statement of their own if no code follows.
-/
namespace Mips

open Statement

/-- A name with a colon after it, at the beginning of a line, and the place of the name. -/
structure Definition where
  name : String
  span : Span
  deriving DecidableEq

def Definition.leading : List Placed → List Definition
  | ⟨.identifier name, span⟩ :: ⟨.colon, _⟩ :: rest => ⟨name, span⟩ :: leading rest
  | _ => []

def Definition.label (d : Definition) : Label :=
  ⟨d.name, d.span.start⟩

namespace SourceText

variable (source : String)

def definitionsOn (n : Nat) : List Definition :=
  Definition.leading (tokensOn source n)

def definitionsBefore (n : Nat) : List Definition :=
  (List.range n).flatMap (definitionsOn source)

def definitions : List Definition :=
  definitionsBefore source (lineCount source)

/-- The line has more than definitions, each of which has two tokens. -/
def HasCode (n : Nat) : Prop :=
  2 * (definitionsOn source n).length < (tokensOn source n).length

instance : DecidablePred (HasCode source) := fun _ => Nat.decLt _ _

def codeLinesBefore (n : Nat) : List Nat :=
  (List.range n).filter (HasCode source ·)

def codeLines : List Nat :=
  codeLinesBefore source (lineCount source)

end SourceText

open SourceText

def Definition.line (source : String) (d : Definition) : Nat :=
  lineAt source d.span.start

def Statement.line (source : String) (s : Statement) : Nat :=
  lineAt source s.span.start

namespace SourceText

/-- The definitions before a line with no code between them and the line. -/
def trailingBefore (source : String) (n : Nat) : List Definition :=
  (definitionsBefore source n).filter fun d => ∀ m ∈ codeLinesBefore source n, m < d.line source

def trailing (source : String) : List Definition :=
  trailingBefore source (lineCount source)

end SourceText

/-- The definition is kept with the first statement that begins on its line or on a later one. -/
def Definition.KeptIn (source : String) (d : Definition) (statements : List Statement) : Prop :=
  ∃ before s after, statements = before ++ s :: after ∧ d.label ∈ s.labels ∧
    d.line source ≤ s.line source ∧ ∀ b ∈ before, b.line source < d.line source

namespace Definition

variable {source : String} {d : Definition} {tokens rest : List Placed} {labels : List Label}

theorem KeptIn.append {statements : List Statement} (kept : d.KeptIn source statements)
    (more : List Statement) : d.KeptIn source (statements ++ more) := by
  obtain ⟨before, s, after, rfl, member, least, others⟩ := kept
  exact ⟨before, s, after ++ more, by simp, member, least, others⟩

theorem keptIn_concat {statements : List Statement} {s : Statement} (member : d.label ∈ s.labels)
    (least : d.line source ≤ s.line source)
    (others : ∀ b ∈ statements, b.line source < d.line source) :
    d.KeptIn source (statements ++ [s]) :=
  ⟨statements, s, [], rfl, member, least, others⟩

theorem leading_of_not_beginsWithLabel (other : ¬BeginsWithLabel tokens) : leading tokens = [] := by
  unfold leading
  split
  next name span colon rest => exact absurd ⟨name, span, colon, rest, rfl⟩ other
  next => rfl

/-- The labels that the parser takes are the leading definitions, with two tokens for each. -/
theorem leading_append (reads : Labels tokens labels) (other : ¬BeginsWithLabel rest) :
    (leading (tokens ++ rest)).map label = labels ∧
      tokens.length = 2 * (leading (tokens ++ rest)).length := by
  induction reads with
  | nil => simp [leading_of_not_beginsWithLabel other]
  | cons _ ih =>
    obtain ⟨same, count⟩ := ih
    rw [List.cons_append, List.cons_append, leading]
    refine ⟨?_, ?_⟩
    · rw [List.map_cons, same]
      rfl
    · simp only [List.length_cons, count]
      omega

theorem leading_sublist (tokens : List Placed) :
    ((leading tokens).map fun d => (⟨.identifier d.name, d.span⟩ : Placed)).Sublist tokens := by
  fun_induction leading tokens with
  | case1 name span colon rest ih => exact .cons_cons _ (.cons _ ih)
  | case2 => exact List.nil_sublist _

theorem mem_of_mem_leading (member : d ∈ leading tokens) :
    ⟨.identifier d.name, d.span⟩ ∈ tokens :=
  (leading_sublist tokens).subset (List.mem_map_of_mem member)

end Definition

namespace SourceText

variable {source : String} {n : Nat} {d : Definition}

theorem definitionsBefore_succ : definitionsBefore source (n + 1) =
    definitionsBefore source n ++ definitionsOn source n := by
  simp [definitionsBefore, List.range_succ]

theorem codeLinesBefore_succ_of_hasCode (code : HasCode source n) :
    codeLinesBefore source (n + 1) = codeLinesBefore source n ++ [n] := by
  simp [codeLinesBefore, List.range_succ, code]

theorem codeLinesBefore_succ_of_not_hasCode (code : ¬HasCode source n) :
    codeLinesBefore source (n + 1) = codeLinesBefore source n := by
  simp [codeLinesBefore, List.range_succ, code]

theorem lt_of_mem_codeLinesBefore {m : Nat} (member : m ∈ codeLinesBefore source n) : m < n :=
  List.mem_range.1 (List.mem_filter.1 member).1

theorem line_of_mem_definitionsOn (member : d ∈ definitionsOn source n) : d.line source = n := by
  have := (List.mem_filter.1 (Definition.mem_of_mem_leading member)).2
  exact (of_decide_eq_true this).2

theorem line_lt_of_mem_definitionsBefore (member : d ∈ definitionsBefore source n) :
    d.line source < n := by
  obtain ⟨m, before, member⟩ := List.mem_flatMap.1 member
  rw [line_of_mem_definitionsOn member]
  exact List.mem_range.1 before

theorem trailingBefore_succ_of_hasCode (code : HasCode source n) :
    trailingBefore source (n + 1) = [] := by
  refine List.filter_eq_nil_iff.2 fun d member => ?_
  have := line_lt_of_mem_definitionsBefore member
  rw [codeLinesBefore_succ_of_hasCode code]
  simp only [List.mem_append, List.mem_singleton, decide_eq_true_eq, not_forall]
  exact ⟨n, .inr rfl, by omega⟩

theorem trailingBefore_succ_of_not_hasCode (code : ¬HasCode source n) :
    trailingBefore source (n + 1) = trailingBefore source n ++ definitionsOn source n := by
  rw [trailingBefore, definitionsBefore_succ, codeLinesBefore_succ_of_not_hasCode code,
    List.filter_append, trailingBefore]
  congr 1
  refine List.filter_eq_self.2 fun d member => ?_
  rw [line_of_mem_definitionsOn member]
  simpa using fun m => lt_of_mem_codeLinesBefore

/-- What waits at a line is not behind it, and no code lies in between. -/
theorem line_of_waits (waits : d ∈ trailingBefore source n ++ definitionsOn source n) :
    d.line source ≤ n ∧ ∀ m ∈ codeLinesBefore source n, m < d.line source := by
  rcases List.mem_append.1 waits with member | member
  · obtain ⟨before, last⟩ := List.mem_filter.1 member
    exact ⟨Nat.le_of_lt (line_lt_of_mem_definitionsBefore before), of_decide_eq_true last⟩
  · rw [line_of_mem_definitionsOn member]
    exact ⟨Nat.le_refl n, fun m => lt_of_mem_codeLinesBefore⟩

end SourceText

namespace Statement

structure Progress.Keeps (source : String) (n : Nat) (p : Progress) : Prop where
  labels : p.statements.toList.flatMap Statement.labels ++ p.waiting.toList =
    (definitionsBefore source n).map Definition.label
  waiting : p.waiting.toList = (trailingBefore source n).map Definition.label
  lines : p.statements.toList.map (Statement.line source) = codeLinesBefore source n
  full : ∀ s ∈ p.statements.toList, s.nucleus ≠ .empty
  kept : ∀ d ∈ definitionsBefore source n, d ∉ trailingBefore source n →
    d.KeptIn source p.statements.toList

namespace Progress.Keeps

variable {source : String} {n : Nat} {p p' : Progress}

theorem nucleus_ne_empty {first : Placed} {others : List Placed} {span : Span} {nucleus : Nucleus}
    (read : Nucleus.ofTokens first others span = .ok nucleus) : nucleus ≠ .empty := by
  obtain ⟨token, place⟩ := first
  obtain ⟨operands, -, reads⟩ := Nucleus.ofTokens_eq_ok.1 read
  cases reads <;> nofun

variable {statements : Array Statement} {waiting : Array Label} {labels : List Label}

theorem addLabels (keeps : Keeps source n ⟨statements, waiting⟩) (code : ¬HasCode source n)
    (same : (definitionsOn source n).map Definition.label = labels) :
    Keeps source (n + 1) ⟨statements, waiting ++ labels.toArray⟩ := by
  constructor
  case labels =>
    rw [definitionsBefore_succ, List.map_append, ← keeps.labels, same]
    simp
  case waiting =>
    rw [trailingBefore_succ_of_not_hasCode code, List.map_append, ← keeps.waiting, same]
    simp
  case lines => rw [codeLinesBefore_succ_of_not_hasCode code, keeps.lines]
  case full => exact keeps.full
  case kept =>
    rw [definitionsBefore_succ, trailingBefore_succ_of_not_hasCode code]
    intro d member settled
    rw [List.mem_append, not_or] at settled
    exact keeps.kept d ((List.mem_append.1 member).resolve_right settled.2) settled.1

/-- The statement of a line takes the labels that wait and those of the line. -/
theorem addCode {nucleus : Nucleus} {span : Span} (keeps : Keeps source n ⟨statements, waiting⟩)
    (code : HasCode source n) (same : (definitionsOn source n).map Definition.label = labels)
    (here : lineAt source span.start = n) (full : nucleus ≠ .empty) :
    Keeps source (n + 1) ⟨statements.push ⟨waiting.toList ++ labels, nucleus, span⟩, #[]⟩ := by
  have before : ∀ s ∈ statements.toList, s.line source < n := by
    intro s member
    exact lt_of_mem_codeLinesBefore (keeps.lines ▸ List.mem_map_of_mem member)
  constructor
  case labels =>
    rw [definitionsBefore_succ, List.map_append, ← keeps.labels, same]
    simp
  case waiting =>
    rw [trailingBefore_succ_of_hasCode code]
    rfl
  case lines =>
    rw [codeLinesBefore_succ_of_hasCode code, ← keeps.lines]
    simp [Statement.line, here]
  case full =>
    rw [Array.toList_push]
    exact List.forall_mem_append.2 ⟨keeps.full, List.forall_mem_singleton.2 full⟩
  case kept =>
    rw [definitionsBefore_succ, Array.toList_push]
    intro d member _
    by_cases settled : d ∈ definitionsBefore source n ∧ d ∉ trailingBefore source n
    · exact (keeps.kept d settled.1 settled.2).append _
    · have waits : d ∈ trailingBefore source n ++ definitionsOn source n := by
        rcases List.mem_append.1 member with member | member
        · exact List.mem_append_left _ (by_contra fun other => settled ⟨member, other⟩)
        · exact List.mem_append_right _ member
      have named : d.label ∈ waiting.toList ++ labels := by
        rw [keeps.waiting, ← same, ← List.map_append]
        exact List.mem_map_of_mem waits
      obtain ⟨least, behind⟩ := line_of_waits waits
      refine Definition.keptIn_concat named (least.trans_eq here.symm) fun b member => ?_
      exact behind _ (keeps.lines ▸ List.mem_map_of_mem member)

theorem addLine (keeps : p.Keeps source n) (h : p.addLine (tokensOn source n) = .ok p') :
    p'.Keeps source (n + 1) := by
  obtain ⟨statements, waiting⟩ := p
  obtain ⟨written, labels, rest, reads, cut, other, h⟩ := addLine_eq_ok.1 h
  obtain ⟨same, count⟩ := Definition.leading_append reads other
  rw [← cut] at same count
  have code : HasCode source n ↔ rest ≠ [] := by
    rw [HasCode, definitionsOn, ← count, cut, List.length_append, ← List.length_pos_iff]
    omega
  rcases h with ⟨rfl, rfl⟩ | ⟨first, others, nucleus, rfl, read, rfl⟩
  · exact keeps.addLabels (fun has => code.1 has rfl) same
  · have member : first ∈ tokensOn source n := by simp [cut]
    have here : lineAt source first.span.start = n :=
      (of_decide_eq_true (List.mem_filter.1 member).2).2
    exact keeps.addCode (code.2 nofun) same here (nucleus_ne_empty read)

/-- The induction is on the number of lines. -/
theorem of_foldlM {start : Progress} (begins : start.Keeps source 0)
    (h : ((List.range n).map (tokensOn source)).foldlM Progress.addLine start = .ok p) :
    p.Keeps source n := by
  induction n generalizing p with
  | zero =>
    cases h
    exact begins
  | succ n ih =>
    rw [List.range_succ, List.map_append, List.map_singleton] at h
    obtain ⟨m, others, last⟩ := foldlM_concat_eq_ok.1 h
    exact (ih others).addLine last

end Progress.Keeps

/-- The statement of the definitions behind all code, if there are any. -/
def trailingStatements (source : String) : List Statement :=
  if trailing source = [] then []
  else [⟨(trailing source).map Definition.label, .empty,
    ⟨source.utf8ByteSize, source.utf8ByteSize⟩⟩]

theorem flatMap_labels_trailingStatements (source : String) :
    (trailingStatements source).flatMap Statement.labels =
      (trailing source).map Definition.label := by
  unfold trailingStatements
  split
  next none =>
    rw [none]
    rfl
  next => exact List.flatMap_singleton ..

/-- All definitions of the source are kept, each once, in order and where it belongs. A line with
code has one statement, and definitions behind all code have one of their own. -/
structure KeepsDefinitions (source : String) (statements : List Statement) : Prop where
  labels : statements.flatMap Statement.labels = (definitions source).map Definition.label
  spans : ∀ d ∈ definitions source, d.label.span = d.span
  ordered : (definitions source).Pairwise fun a b => a.span.stop ≤ b.span.start
  kept : ∀ d ∈ definitions source, d.KeptIn source statements
  lines : ∃ full : List Statement, full.map (Statement.line source) = codeLines source ∧
    (∀ s ∈ full, s.nucleus ≠ .empty) ∧ statements = full ++ trailingStatements source

theorem definitions_sublist {source : String} {tokens : List Placed}
    (lexes : Lexes 0 source.toList tokens) : ((definitions source).map fun d =>
      (⟨.identifier d.name, d.span⟩ : Placed)).Sublist tokens := by
  refine .trans ?_ (flatten_lines_sublist tokens)
  rw [lines_tokens lexes, definitions, definitionsBefore, List.map_flatMap, ← List.flatMap_def]
  exact List.Sublist.flatMap_right _ fun n _ => Definition.leading_sublist (tokensOn source n)

theorem finish_eq_append {source : String} {p : Progress}
    (keeps : p.Keeps source (lineCount source)) : p.finish source.utf8ByteSize =
      p.statements.toList ++ trailingStatements source := by
  obtain ⟨statements, ⟨waiting⟩⟩ := p
  obtain rfl : waiting = (trailing source).map Definition.label := keeps.waiting
  unfold trailingStatements
  cases trailing source with
  | nil => exact (List.append_nil _).symm
  | cons d more =>
    rw [List.map_cons, Progress.finish_cons, if_neg nofun]

/-- The end of the source is on no line before those of its tokens. -/
theorem line_le_of_mem_definitions {source : String} {tokens : List Placed}
    (lexes : Lexes 0 source.toList tokens) {d : Definition} (member : d ∈ definitions source) :
    d.line source ≤ lineAt source source.utf8ByteSize := by
  have inside := (definitions_sublist lexes).subset (List.mem_map_of_mem member)
  have bounds := lexes.within _ inside
  rw [Text.byteLength_toList] at bounds
  exact lineAt_mono source (by dsimp only at bounds; omega)

theorem exists_keeps_of_parse {source : String} {statements : List Statement}
    (parsed : parse source = .ok statements) : ∃ p : Progress, p.Keeps source (lineCount source) ∧
      statements = p.statements.toList ++ trailingStatements source := by
  obtain ⟨tokens, p, lexes, read, rfl⟩ := parse_eq_ok.1 parsed
  rw [lines_tokens lexes] at read
  have begins : Progress.Keeps source 0 ⟨#[], #[]⟩ := ⟨rfl, rfl, rfl, nofun, nofun⟩
  have keeps := Progress.Keeps.of_foldlM begins read
  exact ⟨p, keeps, finish_eq_append keeps⟩

theorem flatMap_labels_of_parse {source : String} {statements : List Statement}
    (parsed : parse source = .ok statements) :
    statements.flatMap Statement.labels = (definitions source).map Definition.label := by
  obtain ⟨p, keeps, rfl⟩ := exists_keeps_of_parse parsed
  rw [List.flatMap_append, flatMap_labels_trailingStatements, definitions, ← keeps.labels,
    keeps.waiting]
  rfl

theorem pairwise_labels_of_parse {source : String} {statements : List Statement}
    (parsed : parse source = .ok statements) :
    (statements.flatMap Statement.labels).Pairwise fun a b => a.start < b.start := by
  obtain ⟨tokens, -, lexes, -⟩ := parse_eq_ok.1 parsed
  have ordered := lexes.pairwise_start.sublist (definitions_sublist lexes)
  rw [flatMap_labels_of_parse parsed]
  rw [List.pairwise_map] at ordered ⊢
  exact ordered

theorem keepsDefinitions_of_parse {source : String} {statements : List Statement}
    (parsed : parse source = .ok statements) : KeepsDefinitions source statements := by
  obtain ⟨tokens, -, lexes, -⟩ := parse_eq_ok.1 parsed
  obtain ⟨p, keeps, same⟩ := exists_keeps_of_parse parsed
  have among := definitions_sublist lexes
  constructor
  case labels => exact flatMap_labels_of_parse parsed
  case spans =>
    intro d member
    have inside := among.subset (List.mem_map_of_mem member)
    obtain ⟨before, after, -, same⟩ := lexes.holds_name inside rfl
    rw [Text.byteLength_toList] at same
    change d.span = _ at same
    rw [Definition.label, Label.span, same]
  case ordered => exact List.pairwise_map.1 (lexes.pairwise.sublist among)
  case kept =>
    intro d member
    rw [same]
    by_cases settled : d ∈ trailing source
    · rw [trailingStatements, if_neg (List.ne_nil_of_mem settled)]
      refine Definition.keptIn_concat (List.mem_map_of_mem settled)
        (line_le_of_mem_definitions lexes member) fun b before => ?_
      have behind := of_decide_eq_true (List.mem_filter.1 settled).2
      exact behind _ (keeps.lines ▸ List.mem_map_of_mem before)
    · exact (keeps.kept d member settled).append _
  case lines => exact ⟨p.statements.toList, keeps.lines, keeps.full, same⟩

def scattered : String :=
  "a: b: syscall\n# c:\nc:\n\nd: jr $31\ne:\nf: # end"

def scatteredStatements : List Statement :=
  [⟨[⟨"a", 0⟩, ⟨"b", 3⟩], .instr .syscall, ⟨6, 13⟩⟩,
   ⟨[⟨"c", 19⟩, ⟨"d", 23⟩], .instr (.jr ⟨31⟩), ⟨26, 32⟩⟩,
   ⟨[⟨"e", 33⟩, ⟨"f", 36⟩], .empty, ⟨44, 44⟩⟩]

theorem keepsDefinitions_scattered : parse scattered = .ok scatteredStatements ∧
    KeepsDefinitions scattered scatteredStatements ∧
      codeLines scattered = [0, 4] ∧ trailing scattered = [⟨"e", 33, 34⟩, ⟨"f", 36, 37⟩] := by
  have parsed : parse scattered = .ok scatteredStatements := by decide +kernel
  exact ⟨parsed, keepsDefinitions_of_parse parsed, by decide +kernel, by decide +kernel⟩

end Statement

end Mips
