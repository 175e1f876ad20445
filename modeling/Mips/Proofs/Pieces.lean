import Mips.Proofs.Lines
import Mips.Text.Slice

/-!
# Pieces of a source

A span holds a piece of the source if the bytes before it and up to its end are those of whole
characters. The tokens of a source hold what they are spelt like, and tokens next to each other on
one line hold a piece without a newline, which by itself is cut into just these tokens.
-/
namespace Mips

open Token

/-- The span covers the piece of the text, which begins at byte `start` of the source. -/
def Span.Holds (span : Span) (start : Nat) (text piece : List Char) : Prop :=
  ∃ before after, text = before ++ (piece ++ after) ∧ span =
    ⟨start + Text.byteLength before, start + Text.byteLength before + Text.byteLength piece⟩

namespace Span.Holds

variable {span : Span} {start : Nat} {text piece : List Char}

theorem behind (front : List Char)
    (holds : span.Holds (start + Text.byteLength front) text piece) :
    span.Holds start (front ++ text) piece := by
  obtain ⟨before, after, rfl, rfl⟩ := holds
  exact ⟨front ++ before, after, by rw [List.append_assoc], by
    rw [Text.byteLength_append, Nat.add_assoc, Nat.add_assoc]⟩

theorem before {back : List Char} (holds : span.Holds start text piece) :
    span.Holds start (text ++ back) piece := by
  obtain ⟨before, after, rfl, rfl⟩ := holds
  exact ⟨before, after ++ back, by simp, rfl⟩

/-- A span that holds a piece of a source is where the piece is found. -/
theorem slice? {source piece : String} (holds : span.Holds 0 source.toList piece.toList) :
    Text.slice? source span.start span.stop = some piece := by
  obtain ⟨before, after, same, rfl⟩ := holds
  have text : source = .ofList before ++ (piece ++ .ofList after) := by
    rw [← String.toList_inj, same]
    simp
  rw [Nat.zero_add, Text.byteLength_toList, Text.byteLength_eq_utf8ByteSize, text]
  exact Text.slice?_append ..

end Span.Holds

namespace Text

theorem newline_not_mem_word {text : List Char} (all : ∀ c ∈ text, isWordChar c = true) :
    '\n' ∉ text := by
  intro member
  have word := all '\n' member
  exact absurd word (by decide)

theorem newline_not_mem_quotes {body value : List Char} (quotes : Quotes body value) :
    '\n' ∉ body := by
  induction quotes with
  | close => decide
  | escape other _ ih => simp [other.symm, ih]
  | plain other _ _ _ ih => simp [other.symm, ih]

end Text

theorem Token.Spelled.newline_not_mem {written : List Char} {t : Token}
    (spelled : Spelled written t) (other : t ≠ .newline) : '\n' ∉ written := by
  cases spelled with
  | signed all | register all => simp [Text.newline_not_mem_word all]
  | text quotes => simp [Text.newline_not_mem_quotes quotes]
  | colon | comma | openParen | closeParen => decide
  | newline | returnNewline => exact absurd rfl other
  | comment all =>
    intro member
    rcases List.mem_cons.1 member with same | member
    · cases same
    · exact all '\n' member rfl
  | directive starts all =>
    have word := Text.newline_not_mem_word (List.forall_mem_cons.2
      ⟨Text.isWordChar_of_isNameStart starts, all⟩)
    intro member
    rcases List.mem_cons.1 member with same | member
    · cases same
    · exact word member
  | unsigned digit all =>
    intro member
    rcases List.mem_cons.1 member with rfl | member
    · exact absurd digit (by decide)
    · exact Text.newline_not_mem_word all member
  | identifier starts all =>
    exact Text.newline_not_mem_word (List.forall_mem_cons.2
      ⟨Text.isWordChar_of_isNameStart starts, all⟩)

theorem Token.Spelled.eq_toList {written : List Char} {name : String}
    (spelled : Spelled written (.identifier name)) : written = name.toList := by
  obtain ⟨_, _, -, same, -⟩ := Reading.exists_name_of_spelled spelled
  exact same.symm

/-- A shorter rest does not go on with a token either. -/
theorem Token.EndsBefore.of_append {t : Token} {a b : List Char} (ends : t.EndsBefore (a ++ b)) :
    t.EndsBefore a := by
  cases a with
  | nil => exact fun _ none => nomatch none
  | cons c a => exact ends

namespace Lexes

variable {start : Nat} {text : List Char} {t : Placed} {tokens before after : List Placed}

/-- A text can be cut behind each of its tokens. -/
theorem exists_cut_behind (h : Lexes start text (before ++ t :: after)) : ∃ front back,
    text = front ++ back ∧ Lexes start front (before ++ [t]) ∧
      Lexes (start + Text.byteLength front) back after ∧
        t.span.stop = start + Text.byteLength front := by
  generalize all : before ++ t :: after = tokens at h
  induction h generalizing before with
  | nil => simp at all
  | blank separator _ ih =>
    obtain ⟨front, back, rfl, first, second, stop⟩ := ih all
    rw [Nat.add_assoc] at second stop
    exact ⟨_, back, rfl, .blank separator first, second, stop⟩
  | @comment start written text tokens spelled ends _ ih =>
    obtain ⟨front, back, rfl, first, second, stop⟩ := ih all
    rw [Nat.add_assoc, ← Text.byteLength_append] at second stop
    exact ⟨written ++ front, back, (List.append_assoc ..).symm,
      .comment spelled ends.of_append first, second, stop⟩
  | @token start written text u tokens spelled noComment ends others ih =>
    cases before with
    | nil =>
      cases all
      have alone : Lexes start (written ++ []) [_] := .token spelled noComment nofun .nil
      rw [List.append_nil] at alone
      exact ⟨written, text, rfl, alone, others, rfl⟩
    | cons first before =>
      obtain ⟨rfl, inside⟩ := List.cons.inj all
      obtain ⟨front, back, rfl, first, second, stop⟩ := ih inside
      rw [Nat.add_assoc, ← Text.byteLength_append] at second stop
      exact ⟨written ++ front, back, (List.append_assoc ..).symm,
        .token spelled noComment ends.of_append first, second, stop⟩

theorem exists_cut_before (h : Lexes start text (t :: tokens)) : ∃ gap rest, text = gap ++ rest ∧
    t.span.start = start + Text.byteLength gap ∧ Lexes t.span.start rest (t :: tokens) := by
  generalize all : t :: tokens = found at h
  induction h with
  | nil => cases all
  | @blank start c text tokens _ _ ih =>
    obtain ⟨gap, rest, rfl, here, lexes⟩ := ih all
    exact ⟨c :: gap, rest, rfl, by rw [here, Nat.add_assoc, Text.byteLength_cons], lexes⟩
  | @comment start written text tokens _ _ _ ih =>
    obtain ⟨gap, rest, rfl, here, lexes⟩ := ih all
    exact ⟨written ++ gap, rest, (List.append_assoc ..).symm,
      by rw [here, Nat.add_assoc, Text.byteLength_append], lexes⟩
  | token spelled noComment ends others =>
    cases all
    exact ⟨[], _, rfl, rfl, .token spelled noComment ends others⟩

theorem exists_drop (h : Lexes start text (before ++ after)) : ∃ front back,
    text = front ++ back ∧ Lexes (start + Text.byteLength front) back after := by
  rcases List.eq_nil_or_concat before with rfl | ⟨before, t, rfl⟩
  · exact ⟨[], text, rfl, h⟩
  · rw [List.concat_eq_append, List.append_assoc] at h
    obtain ⟨front, back, same, -, rest, -⟩ := h.exists_cut_behind
    exact ⟨front, back, same, rest⟩

/-- Tokens next to each other hold a piece of the text, and the piece has just these tokens. -/
theorem exists_piece {first : Placed} {others : List Placed}
    (h : Lexes start text tokens) (inside : first :: others <:+: tokens) :
    ∃ piece, (Statement.extent first others).Holds start text piece ∧
      Lexes first.span.start piece (first :: others) := by
  obtain ⟨before, after, rfl⟩ := inside
  obtain ⟨init, all⟩ := Statement.exists_concat_getLastD first others
  have cut : before ++ (first :: others) ++ after =
      (before ++ init) ++ others.getLastD first :: after := by
    simp [all]
  rw [cut] at h
  obtain ⟨front, back, rfl, upToLast, -, ends⟩ := h.exists_cut_behind
  rw [List.append_assoc, ← all] at upToLast
  obtain ⟨skipped, rest, rfl, fromFirst⟩ := upToLast.exists_drop
  obtain ⟨gap, piece, rfl, begins, lexes⟩ := fromFirst.exists_cut_before
  refine ⟨piece, .before ⟨skipped ++ gap, [], by simp, ?_⟩, lexes⟩
  rw [Statement.extent, begins, ends, Text.byteLength_append, Text.byteLength_append,
    Text.byteLength_append]
  simp only [Nat.add_assoc]

theorem newline_not_mem (h : Lexes start text tokens)
    (inside : ∀ t ∈ tokens, t.token ≠ .newline) : '\n' ∉ text := by
  induction h with
  | nil => nofun
  | blank separator _ ih =>
    intro member
    rcases List.mem_cons.1 member with rfl | member
    · cases separator
    · exact ih inside member
  | comment spelled _ _ ih =>
    rw [List.mem_append, not_or]
    exact ⟨spelled.newline_not_mem nofun, ih inside⟩
  | token spelled _ _ _ ih =>
    obtain ⟨first, others⟩ := List.forall_mem_cons.1 inside
    rw [List.mem_append, not_or]
    exact ⟨spelled.newline_not_mem first, ih others⟩

theorem exists_spelled (h : Lexes start text tokens) (member : t ∈ tokens) :
    ∃ written, t.span.Holds start text written ∧ Spelled written t.token := by
  induction h with
  | nil => cases member
  | @blank start c _ _ _ _ ih =>
    obtain ⟨written, holds, spelled⟩ := ih member
    exact ⟨written, holds.behind [c], spelled⟩
  | comment _ _ _ ih =>
    obtain ⟨written, holds, spelled⟩ := ih member
    exact ⟨written, holds.behind _, spelled⟩
  | @token start covered text _ _ spelled _ _ _ ih =>
    rcases List.mem_cons.1 member with rfl | member
    · exact ⟨covered, ⟨[], text, rfl, rfl⟩, spelled⟩
    · obtain ⟨written, holds, spelled⟩ := ih member
      exact ⟨written, holds.behind _, spelled⟩

theorem holds_name {name : String} (h : Lexes start text tokens) (member : t ∈ tokens)
    (named : t.token = .identifier name) : t.span.Holds start text name.toList := by
  obtain ⟨written, holds, spelled⟩ := h.exists_spelled member
  rw [named] at spelled
  rwa [spelled.eq_toList] at holds

end Lexes

end Mips
