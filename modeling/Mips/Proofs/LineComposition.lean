import Mips.Proofs.Lines
import Mips.Proofs.Relocation

/-!
# Composition of sources

The statements of two sources with a newline between them are those of the first one and then those
of the second one, which stand later by the length of the first one and the newline. This needs that
no label of the first source waits for a statement, since it would wait for one of the second.
-/
namespace Mips.Statement

variable {f : Nat → Nat}

theorem Labels.moved {tokens : List Placed} {labels : List Label} (h : Labels tokens labels) :
    Labels (tokens.map (Placed.moved f)) (labels.map (Label.moved f)) := by
  induction h with
  | nil => exact .nil
  | cons _ ih => exact .cons ih

theorem beginsWithLabel_of_moved {tokens : List Placed}
    (h : BeginsWithLabel (tokens.map (Placed.moved f))) : BeginsWithLabel tokens := by
  obtain ⟨name, _, _, _, same⟩ := h
  obtain ⟨⟨_, span⟩, _, rfl, named, same⟩ := List.map_eq_cons_iff.1 same
  obtain ⟨⟨_, colon⟩, rest, rfl, marked, -⟩ := List.map_eq_cons_iff.1 same
  cases named
  cases marked
  exact ⟨name, span, colon, rest, rfl⟩

theorem extent_moved (first : Placed) (rest : List Placed) :
    extent (first.moved f) (rest.map (Placed.moved f)) = (extent first rest).moved f := by
  unfold extent
  rw [List.getLastD_eq_getLast?, List.getLastD_eq_getLast?, List.getLast?_map, Option.getD_map]
  rfl

theorem lines_moved (tokens : List Placed) :
    lines (tokens.map (Placed.moved f)) = (lines tokens).map (List.map (Placed.moved f)) := by
  induction tokens with
  | nil => rfl
  | cons t tokens ih =>
    obtain ⟨line, rest, same⟩ := List.exists_cons_of_ne_nil (lines_ne_nil tokens)
    rw [same] at ih
    obtain ⟨token, span⟩ := t
    by_cases newline : token = .newline
    · subst newline
      rw [lines_cons_newline, List.map_cons, List.map_cons, same, ← ih]
      rfl
    · rw [lines_cons newline same, List.map_cons, lines_cons newline ih]
      rfl

namespace Progress

/-- The progress at the same lines of a source that stands elsewhere, behind other statements. -/
def moved (f : Nat → Nat) (before : List Statement) (p : Progress) : Progress :=
  ⟨before.toArray ++ p.statements.map (Statement.moved f), p.waiting.map (Label.moved f)⟩

variable {before : List Statement} {p p' : Progress}

/-- A line adds the same at another place. -/
theorem addLine_moved {line : List Placed} (h : p.addLine line = .ok p') :
    (p.moved f before).addLine (line.map (Placed.moved f)) = .ok (p'.moved f before) := by
  obtain ⟨statements, waiting⟩ := p
  obtain ⟨written, labels, rest, reads, rfl, other, h⟩ := addLine_eq_ok.1 h
  refine addLine_eq_ok.2 ⟨_, _, rest.map (Placed.moved f), reads.moved, List.map_append,
    fun begins => other (beginsWithLabel_of_moved begins), ?_⟩
  rcases h with ⟨rfl, rfl⟩ | ⟨first, others, nucleus, rfl, read, rfl⟩
  · exact .inl ⟨rfl, by simp [moved]⟩
  · refine .inr ⟨first.moved f, _, nucleus.moved f, rfl, Nucleus.ofTokens_moved read, ?_⟩
    rw [extent_moved]
    simp [moved, Statement.moved]

theorem foldlM_addLine_moved {ls : List (List Placed)} (h : ls.foldlM addLine p = .ok p') :
    (ls.map (List.map (Placed.moved f))).foldlM addLine (p.moved f before) =
      .ok (p'.moved f before) := by
  induction ls generalizing p with
  | nil =>
    cases h
    rfl
  | cons line rest ih =>
    obtain ⟨m, first, others⟩ := foldlM_cons_eq_ok.1 h
    exact foldlM_cons_eq_ok.2 ⟨_, addLine_moved first, ih others⟩

theorem finish_moved (stop : Nat) :
    (p.moved f before).finish (f stop) = before ++ (p.finish stop).map (Statement.moved f) := by
  obtain ⟨statements, ⟨waiting⟩⟩ := p
  cases waiting with
  | nil => simp [moved, finish]
  | cons label waiting =>
    rw [finish_cons]
    simp [moved, finish, Statement.moved, Nucleus.moved, Span.moved]

/-- Labels that wait at the end are seen in the last statement. -/
theorem waiting_eq_empty {stop : Nat} (h : ∀ s ∈ p.finish stop, s.nucleus ≠ .empty) :
    p.waiting = #[] := by
  obtain ⟨statements, ⟨waiting⟩⟩ := p
  cases waiting with
  | nil => rfl
  | cons label waiting =>
    rw [finish_cons] at h
    exact absurd rfl (h _ List.mem_concat_self)

end Progress

/-- The statements of the second source follow those of the first one. All their positions, and
those of the labels in them, are later by the length of the first source and of the newline. -/
theorem parse_append_newline {a b : String} {as bs : List Statement} (first : parse a = .ok as)
    (settled : ∀ s ∈ as, s.nucleus ≠ .empty) (second : parse b = .ok bs) :
    parse (a ++ "\n" ++ b) =
      .ok (as ++ bs.map (Statement.moved (· + (a.utf8ByteSize + 1)))) := by
  obtain ⟨tokens, ⟨statements, waiting⟩, lexes, read, rfl⟩ := parse_eq_ok.1 first
  obtain ⟨tokens', p', lexes', read', rfl⟩ := parse_eq_ok.1 second
  cases Progress.waiting_eq_empty settled
  have text : (a ++ "\n" ++ b).toList = a.toList ++ '\n' :: b.toList := by simp
  have later := lexes'.moved (a.utf8ByteSize + 1)
  rw [Nat.zero_add, ← Text.byteLength_toList] at later
  have joined := lexes.append_newline (.newline (by rwa [Nat.zero_add]))
  rw [← text] at joined
  have behind : Progress.moved (· + (a.utf8ByteSize + 1)) statements.toList ⟨#[], #[]⟩ =
      ⟨statements, #[]⟩ := by simp [Progress.moved]
  have size : (a ++ "\n" ++ b).utf8ByteSize = b.utf8ByteSize + (a.utf8ByteSize + 1) := by
    rw [String.utf8ByteSize_append, String.utf8ByteSize_append, Nat.add_comm]
    rfl
  refine parse_eq_ok.2 ⟨_, p'.moved (· + (a.utf8ByteSize + 1)) statements.toList, joined, ?_, ?_⟩
  · rw [lines_append_newline, lines_moved, ← Text.byteLength_toList]
    refine foldlM_append_eq_ok.2 ⟨_, read, ?_⟩
    rw [← behind, ← Text.byteLength_toList]
    exact Progress.foldlM_addLine_moved read'
  · rw [size]
    exact p'.finish_moved _

def greek : String :=
  "pi: .asciiz \"π\" # é\r\nstart: li T0, -0x10"

def greekStatements : List Statement :=
  [⟨[⟨"pi", 0⟩], .directive (.asciiz "π"), ⟨4, 16⟩⟩,
   ⟨[⟨"start", 23⟩], .instr (.li ⟨8⟩ (-16)), ⟨30, 42⟩⟩]

def ending : String :=
  "j start\nend:"

def endingStatements : List Statement :=
  [⟨[], .instr (.jump .j ⟨"start", 2⟩), ⟨0, 7⟩⟩, ⟨[⟨"end", 8⟩], .empty, ⟨12, 12⟩⟩]

theorem parse_append_newline_greek :
    parse greek = .ok greekStatements ∧ parse ending = .ok endingStatements ∧
      parse (greek ++ "\n" ++ ending) =
        .ok (greekStatements ++ [⟨[], .instr (.jump .j ⟨"start", 45⟩), ⟨43, 50⟩⟩,
          ⟨[⟨"end", 51⟩], .empty, ⟨55, 55⟩⟩]) := by
  have first : parse greek = .ok greekStatements := by decide +kernel
  have second : parse ending = .ok endingStatements := by decide +kernel
  exact ⟨first, second, parse_append_newline first (by decide) second⟩

end Mips.Statement
