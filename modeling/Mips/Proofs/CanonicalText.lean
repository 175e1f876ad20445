import Mips.Proofs.CanonicalLines

/-!
# Canonical texts

Statements that were read from a source can be written, and their canonical texts on lines of their
own are read as the same statements again. The texts in them must have plain characters, since other
characters are written with escapes that are not read.
-/
namespace Mips

open Text

def Placed.Named (t : Placed) : Prop :=
  ∀ name, t.token = .identifier name → IsName name

theorem Lexes.named {start : Nat} {text : List Char} {tokens : List Placed}
    (h : Lexes start text tokens) : ∀ t ∈ tokens, t.Named := by
  induction h with
  | nil => nofun
  | blank _ _ ih | comment _ _ _ ih => exact ih
  | token spelled _ _ _ ih =>
    refine List.forall_mem_cons.2 ⟨fun name same => ?_, ih⟩
    cases same
    exact Token.isName_of_spelled spelled

namespace Operand

def Named (o : Operand) : Prop :=
  ∀ name, o.value = .name name → IsName name

variable {o : Operand} {tokens : List Placed} {operands : List Operand}

theorem Phrase.named (h : Phrase tokens o) (all : ∀ t ∈ tokens, t.Named) : o.Named := by
  rintro name same
  cases h with
  | @name name' span =>
    cases same
    exact all _ List.mem_cons_self name rfl
  | access | base | integer | register | text => cases same

theorem Splits.named (h : Splits tokens operands) (all : ∀ t ∈ tokens, t.Named) :
    ∀ o ∈ operands, o.Named := by
  induction h with
  | nil => nofun
  | cons phrase _ _ _ ih =>
    simp only [List.forall_mem_append] at all
    exact List.forall_mem_cons.2 ⟨phrase.named all.1, ih all.2.2⟩

theorem Means.named {a : Argument} (h : Means o a) (named : o.Named) : a.Named := by
  cases h with
  | label | place => exact named _ rfl
  | register | bareRegister | amount | word | access => trivial

theorem forall_named_of_means {arguments : List Argument}
    (h : List.Forall₂ Means operands arguments) (named : ∀ o ∈ operands, o.Named) :
    ∀ a ∈ arguments, a.Named := by
  induction h with
  | nil => nofun
  | cons means _ ih =>
    obtain ⟨first, others⟩ := List.forall_mem_cons.1 named
    exact List.forall_mem_cons.2 ⟨means.named first, ih others⟩

end Operand

theorem Directive.Takes.named {name : String} {operands : List Operand} {d : Directive}
    (h : Takes name operands d) (named : ∀ o ∈ operands, o.Named) :
    (Nucleus.directive d).Named := by
  cases h with
  | data | text | asciiz => trivial
  | word nonempty means =>
    rintro rfl
    cases means
    exact nonempty rfl
  | globl means | global means => exact means.named (named _ List.mem_cons_self)

theorem Nucleus.Reads.named {t : Token} {operands : List Operand} {n : Nucleus}
    (h : Reads t operands n) (named : ∀ o ∈ operands, o.Named) : n.Named ∧ n ≠ .empty := by
  refine ⟨?_, by rintro rfl; cases h⟩
  cases h with
  | instr _ means => exact Operand.forall_named_of_means means named
  | directive takes => exact takes.named named

namespace Statement

theorem Labels.named {tokens : List Placed} {labels : List Label} (h : Labels tokens labels)
    (all : ∀ t ∈ tokens, t.Named) : ∀ l ∈ labels, IsName l.name := by
  induction h with
  | nil => nofun
  | cons _ ih =>
    obtain ⟨first, others⟩ := List.forall_mem_cons.1 all
    exact List.forall_mem_cons.2 ⟨first _ rfl, ih (List.forall_mem_cons.1 others).2⟩

namespace Progress

/-- What has been read can be written. -/
structure Named (p : Progress) : Prop where
  statements : ∀ s ∈ p.statements, s.Named ∧ s.nucleus ≠ .empty
  waiting : ∀ l ∈ p.waiting, IsName l.name

theorem Named.addLine {p p' : Progress} (named : p.Named) {line : List Placed}
    (all : ∀ t ∈ line, t.Named) (h : p.addLine line = .ok p') : p'.Named := by
  obtain ⟨statements, waiting⟩ := p
  obtain ⟨before, labels⟩ := named
  obtain ⟨written, new, rest, reads, rfl, -, h⟩ := addLine_eq_ok.1 h
  obtain ⟨first, others⟩ := List.forall_mem_append.1 all
  have names : ∀ l ∈ waiting.toList ++ new, IsName l.name := List.forall_mem_append.2
    ⟨fun l member => labels l (Array.mem_toList_iff.1 member), reads.named first⟩
  rcases h with ⟨-, rfl⟩ | ⟨first, others', n, rfl, read, rfl⟩
  · refine ⟨before, fun l member => names l ?_⟩
    rw [← Array.mem_toList_iff, Array.toList_append] at member
    exact member
  · obtain ⟨operands, splits, reads⟩ := Nucleus.ofTokens_eq_ok.1 read
    obtain ⟨inside, full⟩ := reads.named (splits.named (List.forall_mem_cons.1 others).2)
    refine ⟨fun s member => ?_, nofun⟩
    rcases Array.mem_push.1 member with earlier | rfl
    · exact before s earlier
    · exact ⟨⟨names, inside⟩, full⟩

end Progress

/-- Nothing, or labels with no statement after them. -/
def Trailing (statements : List Statement) : Prop :=
  statements = [] ∨ ∃ last, statements = [last] ∧ last.nucleus = .empty ∧ last.labels ≠ []

/-- The statements of a source can be written. Only the last one may have nothing but labels. -/
theorem named_of_parse {source : String} {statements : List Statement}
    (parsed : parse source = .ok statements) : ∃ full trailing, statements = full ++ trailing ∧
      (∀ s ∈ full ++ trailing, s.Named) ∧ (∀ s ∈ full, s.nucleus ≠ .empty) ∧
      Trailing trailing := by
  obtain ⟨tokens, ⟨statements, ⟨waiting⟩⟩, lexes, read, rfl⟩ := parse_eq_ok.1 parsed
  have start : Progress.Named ⟨#[], #[]⟩ := ⟨nofun, nofun⟩
  obtain ⟨before, labels⟩ := foldlM_establishes_of_mem (I := fun _ p => p.Named)
    (fun inside h named =>
      named.addLine (fun t member => lexes.named t (mem_of_mem_lines inside t member)) h)
    read start
  have named : ∀ s ∈ statements.toList, s.Named :=
    fun s member => (before s (Array.mem_toList_iff.1 member)).1
  have full : ∀ s ∈ statements.toList, s.nucleus ≠ .empty :=
    fun s member => (before s (Array.mem_toList_iff.1 member)).2
  cases waiting with
  | nil =>
    refine ⟨statements.toList, [], ?_, ?_, full, .inl rfl⟩
    · rw [Progress.finish_nil, List.append_nil]
    · rw [List.append_nil]
      exact named
  | cons label waiting =>
    refine ⟨statements.toList, _, Progress.finish_cons .., ?_, full,
      .inr ⟨_, rfl, rfl, List.cons_ne_nil _ _⟩⟩
    have last : ∀ l ∈ label :: waiting, IsName l.name :=
      fun l member => labels l (List.mem_toArray.2 member)
    exact List.forall_mem_append.2 ⟨named, List.forall_mem_singleton.2 ⟨last, trivial⟩⟩

theorem lines_of_not_mem {placed : List Placed} {piece : List Token}
    (same : placed.map Placed.token = piece) (inside : Token.newline ∉ piece) :
    lines placed = [placed] := by
  refine lines_of_forall_ne fun t member newline => ?_
  rw [← same, ← newline] at inside
  exact inside (List.mem_map_of_mem member)

theorem exists_lexes_intercalate {texts : List (List Char)} {pieces : List (List Token)}
    (writes : List.Forall₂ Writes texts pieces) (some : texts ≠ [])
    (inside : ∀ piece ∈ pieces, Token.newline ∉ piece) (start : Nat) :
    ∃ placed, Lexes start (['\n'].intercalate texts) placed ∧
      (lines placed).map (List.map Placed.token) = pieces := by
  induction writes generalizing start with
  | nil => exact absurd rfl some
  | @cons text piece texts pieces first others ih =>
    obtain ⟨here, later⟩ := List.forall_mem_cons.1 inside
    cases others with
    | nil =>
      obtain ⟨placed, same, lexes⟩ := first start [] [] endsWord_nil .nil
      rw [List.append_nil, List.append_nil] at lexes
      refine ⟨placed, by rwa [List.intercalate_singleton], ?_⟩
      rw [lines_of_not_mem same here, List.map_singleton, same]
    | cons second others =>
      obtain ⟨placed', lexes', same'⟩ :=
        ih (List.cons_ne_nil _ _) later (start + byteLength text + 1)
      obtain ⟨placed, same, lexes⟩ := first start _ _ (endsWord_cons (by decide)) lexes'.newline
      refine ⟨_, by rwa [List.intercalate_cons_cons, List.append_assoc], ?_⟩
      rw [lines_append_newline, List.map_append, same', lines_of_not_mem same here,
        List.map_singleton, same, List.singleton_append]

theorem exists_finish_of_lines {full trailing : List Statement}
    (named : ∀ s ∈ full, s.Named) (nonempty : ∀ s ∈ full, s.nucleus ≠ .empty)
    (last : Trailing trailing) {ls : List (List Placed)}
    (same : ls.map (List.map Placed.token) = (full ++ trailing).map tokens) (stop : Nat) :
    ∃ p : Progress, ls.foldlM Progress.addLine ⟨#[], #[]⟩ = .ok p ∧
      (p.finish stop).map (moved nowhere) = (full ++ trailing).map (moved nowhere) := by
  rw [List.map_append] at same
  obtain ⟨ls, others, rfl, sameFull, sameOthers⟩ := List.map_eq_append_iff.1 same
  obtain ⟨added, read, equal⟩ := exists_foldlM_addLine named nonempty sameFull []
  rw [List.nil_append] at read
  rcases last with rfl | ⟨last, rfl, none, some⟩
  · obtain rfl := List.map_eq_nil_iff.1 sameOthers
    refine ⟨_, by rw [List.append_nil]; exact read, ?_⟩
    rw [Progress.finish_nil, List.append_nil, ← equal]
  · obtain ⟨line, rfl, sameLine⟩ := List.map_eq_singleton_iff.1 sameOthers
    obtain ⟨waiting, readLast, equalLast⟩ := exists_addLine_of_empty none sameLine added.toArray
    refine ⟨_, foldlM_concat_eq_ok.2 ⟨_, read, readLast⟩, ?_⟩
    cases waiting with
    | nil => exact absurd (List.map_eq_nil_iff.1 equalLast.symm) some
    | cons label waiting =>
      rw [Progress.finish_cons, List.map_append, List.map_append, equal, List.map_singleton,
        List.map_singleton, moved, equalLast, moved, none]
      rfl

/-- The canonical texts of the statements of a source, each on a line of its own, are read as these
statements, which only stand elsewhere. -/
theorem parse_intercalate_text {source : String} {statements : List Statement}
    (parsed : parse source = .ok statements) (plain : ∀ s ∈ statements, s.nucleus.Plain) :
    ∃ again, parse (String.intercalate "\n" (statements.map text)) = .ok again ∧
      again.map (moved nowhere) = statements.map (moved nowhere) := by
  obtain ⟨full, trailing, rfl, named, nonempty, last⟩ := named_of_parse parsed
  by_cases none : full ++ trailing = []
  · rw [none]
    exact ⟨[], parse_eq_ok.2 ⟨[], ⟨#[], #[]⟩, .nil, rfl, rfl⟩, rfl⟩
  · have writes : List.Forall₂ Writes ((full ++ trailing).map fun s => s.text.toList)
        ((full ++ trailing).map tokens) := by
      rw [List.forall₂_map_left_iff, List.forall₂_map_right_iff, List.forall₂_same]
      exact fun s member => s.writes (named s member) (plain s member)
    obtain ⟨placed, lexes, same⟩ := exists_lexes_intercalate writes (by simpa using none)
      (List.forall_mem_map.2 fun s _ => s.newline_not_mem_tokens) 0
    obtain ⟨p, read, equal⟩ := exists_finish_of_lines
      (fun s member => named s (List.mem_append_left _ member)) nonempty last same
      (String.intercalate "\n" ((full ++ trailing).map text)).utf8ByteSize
    refine ⟨_, parse_eq_ok.2 ⟨placed, p, ?_, read, rfl⟩, equal⟩
    rw [String.toList_intercalate, List.map_map]
    exact lexes

def loose : String :=
  "main: x:\nLI t0, 0x80000000 # é\n.global main\nlw $3 x,\r\nsw T1, -0x4(SP)\nsll t0 t0 37\n" ++
    ".word 1 -1, 4294967295\n.asciiz \"a\\tb\\0\\\"\\q\"\nend:"

def looseStatements : List Statement :=
  [⟨[⟨"main", 0⟩, ⟨"x", 6⟩], .instr (.li ⟨8⟩ 0x80000000), ⟨9, 26⟩⟩,
   ⟨[], .directive (.globl ⟨"main", 40⟩), ⟨32, 44⟩⟩,
   ⟨[], .instr (.mem .lw ⟨3⟩ (.label ⟨"x", 51⟩)), ⟨45, 53⟩⟩,
   ⟨[], .instr (.mem .sw ⟨9⟩ (.offset (-4) .sp)), ⟨55, 70⟩⟩,
   ⟨[], .instr (.shift .sll ⟨8⟩ ⟨8⟩ 5), ⟨71, 83⟩⟩,
   ⟨[], .directive (.word [1, -1, -1]), ⟨84, 106⟩⟩,
   ⟨[], .directive (.asciiz "a\tb\x00\"\\q"), ⟨107, 127⟩⟩,
   ⟨[⟨"end", 128⟩], .empty, ⟨132, 132⟩⟩]

theorem parse_intercalate_text_loose : parse loose = .ok looseStatements ∧
    String.intercalate "\n" (looseStatements.map text) =
      "main: x: li $t0, -2147483648\n.globl main\nlw $v1, x\nsw $t1, -4($sp)\n" ++
        "sll $t0, $t0, 5\n.word 1, -1, -1\n.asciiz \"a\\tb\\0\\\"\\\\q\"\nend: " ∧
    ∃ again, parse (String.intercalate "\n" (looseStatements.map text)) = .ok again ∧
      again.map (moved nowhere) = looseStatements.map (moved nowhere) := by
  have parsed : parse loose = .ok looseStatements := by decide +kernel
  have plain : ∀ s ∈ looseStatements, s.nucleus.Plain := by decide +kernel
  exact ⟨parsed, by decide +kernel, parse_intercalate_text parsed plain⟩

end Statement

end Mips
