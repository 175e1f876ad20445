import Mips.Proofs.Lines
import Mips.Proofs.Pieces
import Mips.Proofs.SourceLines

/-!
# Tokens on the lines of a source

The tokens of a source stand in order, and the newlines among them are the newlines of its text. The
lines of tokens, with which the parser works, are hence the tokens that begin on the lines of the
text.
-/
namespace Mips

open Token

theorem Token.Spelled.eq_newline {written : List Char} (spelled : Spelled written .newline) :
    written = ['\n'] ∨ written = ['\r', '\n'] := by
  cases spelled with
  | newline => exact .inl rfl
  | returnNewline => exact .inr rfl
  | signed _ read => obtain ⟨_, ⟨⟩⟩ := Reading.eq_signed read
  | register _ read => obtain ⟨_, ⟨⟩⟩ := Reading.eq_register read
  | unsigned _ _ read => obtain ⟨_, ⟨⟩⟩ := Reading.eq_unsigned read

namespace Lexes

variable {start : Nat} {text line rest : List Char} {tokens : List Placed}

theorem within (h : Lexes start text tokens) : ∀ t ∈ tokens, start ≤ t.span.start ∧
    t.span.start < t.span.stop ∧ t.span.stop ≤ start + Text.byteLength text := by
  intro t member
  obtain ⟨written, ⟨before, after, rfl, span⟩, spelled⟩ := h.exists_spelled member
  obtain ⟨c, more, rfl, -⟩ := spelled.exists_cons
  have := c.utf8Size_pos
  rw [span]
  simp only [Text.byteLength_append, Text.byteLength_cons]
  omega

theorem pairwise (h : Lexes start text tokens) :
    tokens.Pairwise fun a b => a.span.stop ≤ b.span.start := by
  induction h with
  | nil => exact .nil
  | blank _ _ ih | comment _ _ _ ih => exact ih
  | token _ _ _ others ih => exact .cons (fun t member => (others.within t member).1) ih

theorem pairwise_start (h : Lexes start text tokens) :
    tokens.Pairwise fun a b => a.span.start < b.span.start :=
  h.pairwise.imp_of_mem fun first _ ends => Nat.lt_of_lt_of_le (h.within _ first).2.1 ends

theorem ne_newline (h : Lexes start text tokens) (level : '\n' ∉ text) :
    ∀ t ∈ tokens, t.token ≠ .newline := by
  intro t member newline
  obtain ⟨written, ⟨before, after, rfl, -⟩, spelled⟩ := h.exists_spelled member
  rw [newline] at spelled
  rcases spelled.eq_newline with rfl | rfl <;> simp at level

/-- A piece without a newline is a part of the line that a text begins with. -/
theorem exists_rest_of_line {piece : List Char} (level : '\n' ∉ piece)
    (same : piece ++ text = line ++ '\n' :: rest) :
    ∃ line', line = piece ++ line' ∧ text = line' ++ '\n' :: rest := by
  rcases List.append_eq_append_iff.1 same with ⟨line', first, second⟩ | ⟨more, first, second⟩
  · exact ⟨line', first, second⟩
  · cases more with
    | nil => exact ⟨[], by simpa using first.symm, second.symm⟩
    | cons c more =>
      cases second
      exact absurd (by simp [first]) level

theorem eq_of_append_newline (piece : List Char) (level : '\n' ∉ line) (level' : '\n' ∉ piece)
    (same : line ++ '\n' :: rest = piece ++ '\n' :: text) : line = piece ∧ rest = text := by
  obtain ⟨line', rfl, after⟩ := exists_rest_of_line level' same.symm
  cases line' with
  | nil => exact ⟨List.append_nil piece, (List.cons.inj after).2.symm⟩
  | cons c line' =>
    cases after
    exact absurd (List.mem_append_right _ List.mem_cons_self) level

/-- A token that ends before the end of its line ends there too if the carriage return is left
out. -/
theorem endsBefore_of_line {t : Token} {body : List Char}
    (cut : line = body ∨ line = body ++ ['\r'])
    (ends : t.EndsBefore (line ++ '\n' :: rest)) : t.EndsBefore body := by
  rcases cut with rfl | rfl
  · exact ends.of_append
  · exact ends.of_append.of_append

/-- A text is cut at the end of its first line. A carriage return there belongs to the newline if it
is not part of a comment. -/
theorem exists_cut_newline (h : Lexes start (line ++ '\n' :: rest) tokens) (level : '\n' ∉ line) :
    ∃ body before span after, (line = body ∨ line = body ++ ['\r']) ∧ Lexes start body before ∧
      tokens = before ++ ⟨.newline, span⟩ :: after ∧
        Lexes (start + Text.byteLength line + 1) rest after := by
  generalize whole : line ++ '\n' :: rest = text at h
  induction h generalizing line with
  | nil => simp at whole
  | @blank start c text tokens separator _ ih =>
    cases line with
    | nil =>
      cases whole
      cases separator
    | cons d line =>
      cases whole
      obtain ⟨body, before, span, after, ends, first, rfl, second⟩ :=
        ih (fun member => level (List.mem_cons_of_mem _ member)) rfl
      rw [Nat.add_assoc start, ← Text.byteLength_cons] at second
      refine ⟨c :: body, before, span, after, ?_, .blank separator first, rfl, second⟩
      exact ends.imp (congrArg _) (congrArg _)
  | @comment start written text tokens spelled ends _ ih =>
    obtain ⟨line', rfl, rfl⟩ := exists_rest_of_line (spelled.newline_not_mem nofun) whole.symm
    obtain ⟨body, before, span, after, cut, first, rfl, second⟩ :=
      ih (fun member => level (List.mem_append_right _ member)) rfl
    rw [Nat.add_assoc start, ← Text.byteLength_append] at second
    refine ⟨written ++ body, before, span, after, ?_,
      .comment spelled (endsBefore_of_line cut ends) first, rfl, second⟩
    exact cut.imp (congrArg _) fun same => by rw [same, List.append_assoc]
  | @token start written text t tokens spelled noComment ends others ih =>
    by_cases newline : '\n' ∈ written
    · have same : t = .newline := by
        by_contra other
        exact spelled.newline_not_mem other newline
      subst same
      rcases spelled.eq_newline with rfl | rfl
      · obtain ⟨rfl, rfl⟩ := eq_of_append_newline [] level nofun whole
        exact ⟨[], [], _, tokens, .inl rfl, .nil, rfl, others⟩
      · obtain ⟨rfl, rfl⟩ := eq_of_append_newline ['\r'] level (by decide) whole
        exact ⟨[], [], _, tokens, .inr rfl, .nil, rfl, others⟩
    · obtain ⟨line', rfl, rfl⟩ := exists_rest_of_line newline whole.symm
      obtain ⟨body, before, span, after, cut, first, rfl, second⟩ :=
        ih (fun member => level (List.mem_append_right _ member)) rfl
      rw [Nat.add_assoc start, ← Text.byteLength_append] at second
      refine ⟨written ++ body, _ :: before, span, after, ?_,
        .token spelled noComment (endsBefore_of_line cut ends) first, rfl, second⟩
      exact cut.imp (congrArg _) fun same => by rw [same, List.append_assoc]

end Lexes

/-- The tokens are those of the line, where a carriage return at its end need not be read. -/
def Line.Has (l : Line) (tokens : List Placed) : Prop :=
  ∃ body, (l.text = body ∨ l.text = body ++ ['\r']) ∧ Lexes l.start body tokens

theorem Line.Has.within {l : Line} {tokens : List Placed} (has : l.Has tokens) :
    ∀ t ∈ tokens, l.start ≤ t.span.start ∧ t.span.start < t.span.stop ∧ t.span.stop ≤ l.stop := by
  obtain ⟨body, cut, lexes⟩ := has
  intro t member
  obtain ⟨least, some, most⟩ := lexes.within t member
  refine ⟨least, some, Nat.le_trans most (Nat.add_le_add_left ?_ _)⟩
  rcases cut with same | same
  · rw [same]
  · rw [same, Text.byteLength_append]
    exact Nat.le_add_right ..

/-- The token is on the line with the number, and is not the newline that ends it. -/
def Placed.isOn (ls : List Line) (n : Nat) (t : Placed) : Bool :=
  t.token ≠ .newline ∧ ls.countP (fun l => l.stop < t.span.start) = n

namespace SourceText

namespace Cuts

variable {start : Nat} {text : List Char} {ls : List Line} {tokens : List Placed} {t : Placed}

/-- A text with one more line in front of it: the line's tokens, a newline and the tokens of the
text. -/
theorem exists_tokens_cons {line rest : List Char} (level : '\n' ∉ line)
    (lexes : Lexes start (line ++ '\n' :: rest) tokens) : ∃ before span after,
      tokens = before ++ ⟨.newline, span⟩ :: after ∧ Line.Has ⟨start, line⟩ before ∧
        Statement.lines tokens = before :: Statement.lines after ∧
          Lexes (start + Text.byteLength line + 1) rest after := by
  obtain ⟨body, before, span, after, cut, first, rfl, second⟩ := lexes.exists_cut_newline level
  have level' : '\n' ∉ body := by
    rcases cut with rfl | rfl
    · exact level
    · exact fun member => level (List.mem_append_left _ member)
  refine ⟨before, span, after, rfl, ⟨body, cut, first⟩, ?_, second⟩
  rw [Statement.lines_append_newline, Statement.lines_of_forall_ne (first.ne_newline level')]
  rfl

theorem isOn_cons_of_le {line rest : List Char} (inside : t.token ≠ .newline)
    (cuts : Cuts (start + Text.byteLength line + 1) rest ls)
    (most : t.span.start ≤ start + Text.byteLength line) (n : Nat) :
    t.isOn (⟨start, line⟩ :: ls) n = decide (n = 0) := by
  have here : ¬Line.stop ⟨start, line⟩ < t.span.start := Nat.not_lt.2 most
  have later := cuts.countP_stop_lt (Nat.le_succ_of_le most)
  simp [Placed.isOn, here, later, inside, eq_comm]

theorem isOn_cons_of_lt {l : Line} (behind : l.stop < t.span.start) :
    t.isOn (l :: ls) 0 = false ∧ ∀ n, t.isOn (l :: ls) (n + 1) = t.isOn ls n := by
  simp [Placed.isOn, behind]

/-- The lines of tokens are found by the numbers of the lines that the tokens begin on. -/
theorem lines_eq_map (cuts : Cuts start text ls) (lexes : Lexes start text tokens) :
    Statement.lines tokens =
      (List.range ls.length).map fun n => tokens.filter (Placed.isOn ls n) := by
  induction cuts generalizing tokens with
  | @last start line level =>
    have inside := lexes.ne_newline level
    rw [Statement.lines_of_forall_ne inside]
    refine (List.singleton_inj.2 (List.filter_eq_self.2 fun t member => ?_)).symm
    obtain ⟨-, some, most⟩ := lexes.within t member
    have here : ¬Line.stop ⟨start, line⟩ < t.span.start :=
      Nat.not_lt.2 (Nat.le_trans (Nat.le_of_lt some) most)
    simp [Placed.isOn, here, inside t member]
  | @cons start line rest ls level cuts ih =>
    obtain ⟨before, span, after, rfl, has, same, second⟩ := exists_tokens_cons level lexes
    have inside : ∀ t ∈ before, t.token ≠ .newline :=
      Statement.ne_newline_of_mem_lines (same ▸ List.mem_cons_self)
    have here : ∀ t ∈ before, ∀ n, t.isOn (⟨start, line⟩ :: ls) n = decide (n = 0) := by
      intro t member
      obtain ⟨-, some, most⟩ := has.within t member
      exact isOn_cons_of_le (inside t member) cuts (Nat.le_trans (Nat.le_of_lt some) most)
    have later : ∀ t ∈ after, t.isOn (⟨start, line⟩ :: ls) 0 = false ∧
        ∀ n, t.isOn (⟨start, line⟩ :: ls) (n + 1) = t.isOn ls n :=
      fun t member => isOn_cons_of_lt (second.within t member).1
    have cut : ∀ n,
        (before ++ ⟨.newline, span⟩ :: after).filter (Placed.isOn (⟨start, line⟩ :: ls) n) =
        before.filter (Placed.isOn (⟨start, line⟩ :: ls) n) ++
          after.filter (Placed.isOn (⟨start, line⟩ :: ls) n) := by
      intro n
      rw [List.filter_append, List.filter_cons_of_neg (by simp [Placed.isOn])]
    rw [same, ih second, List.length_cons, List.range_succ_eq_map, List.map_cons, List.map_map, cut]
    congr 1
    · have all : before.filter (Placed.isOn (⟨start, line⟩ :: ls) 0) = before :=
        List.filter_eq_self.2 fun t member => by simp [here t member]
      have none : after.filter (Placed.isOn (⟨start, line⟩ :: ls) 0) = [] :=
        List.filter_eq_nil_iff.2 fun t member => by simp [(later t member).1]
      rw [all, none, List.append_nil]
    · refine List.map_congr_left fun n _ => ?_
      have none : before.filter (Placed.isOn (⟨start, line⟩ :: ls) (n + 1)) = [] :=
        List.filter_eq_nil_iff.2 fun t member => by simp [here t member]
      rw [Function.comp_apply, cut, none, List.nil_append]
      exact List.filter_congr fun t member => ((later t member).2 n).symm

end Cuts

/-- The tokens of a source, none if it has an error. -/
def tokens (source : String) : List Placed :=
  match Statement.significant (Lexeme.ofSource source) with
  | .ok tokens => tokens
  | .error _ => []

def tokensOn (source : String) (n : Nat) : List Placed :=
  (tokens source).filter fun t => t.token ≠ .newline ∧ lineAt source t.span.start = n

theorem tokens_eq {source : String} {tokens : List Placed} (lexes : Lexes 0 source.toList tokens) :
    SourceText.tokens source = tokens := by
  rw [SourceText.tokens, Statement.significant_ofSource_eq_ok.2 lexes]

/-- The lines that the parser goes over are those of the text, one after the other. -/
theorem lines_tokens {source : String} {tokens : List Placed}
    (lexes : Lexes 0 source.toList tokens) :
    Statement.lines tokens = (List.range (lineCount source)).map (tokensOn source) := by
  rw [(cuts_lines source).lines_eq_map lexes, lineCount, Array.length_toList]
  refine List.map_congr_left fun n _ => ?_
  rw [tokensOn, tokens_eq lexes]
  refine List.filter_congr fun t _ => ?_
  rw [Placed.isOn, Array.countP_toList, lineAt]

end SourceText

end Mips
