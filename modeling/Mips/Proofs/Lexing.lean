import Mips.Proofs.Spelling
import Mips.Statement.Parser

/-!
# Lexing as a relation

A text has tokens just if it can be cut into blanks and spellings, each of which the text after it
does not go on with. How a text is cut does not depend on where in the source it stands, and a
newline between two texts keeps them apart.
-/
namespace Mips

open Token

/-- The text that begins at byte `start` is cut into blanks, comments and the tokens. -/
inductive Lexes : (start : Nat) → List Char → List Placed → Prop
  | nil {start : Nat} : Lexes start [] []
  | blank {start : Nat} {c : Char} {text : List Char} {tokens : List Placed} :
      Lexeme.isSeparator c = true → Lexes (start + c.utf8Size) text tokens →
      Lexes start (c :: text) tokens
  | comment {start : Nat} {written text : List Char} {tokens : List Placed} :
      Spelled written .comment → Token.comment.EndsBefore text →
      Lexes (start + Text.byteLength written) text tokens → Lexes start (written ++ text) tokens
  | token {start : Nat} {written text : List Char} {t : Token} {tokens : List Placed} :
      Spelled written t → t ≠ .comment → t.EndsBefore text →
      Lexes (start + Text.byteLength written) text tokens →
      Lexes start (written ++ text)
        (⟨t, ⟨start, start + Text.byteLength written⟩⟩ :: tokens)

theorem Token.Spelled.exists_cons {written : List Char} {t : Token} (spelled : Spelled written t) :
    ∃ c rest, written = c :: rest ∧ Lexeme.isSeparator c = false := by
  have blank : ∀ c, Lexeme.isSeparator c = true → c = ' ' ∨ c = '\t' := by
    simp [Lexeme.isSeparator]
  cases spelled with
  | @unsigned c _ _ digit =>
    refine ⟨_, _, rfl, Bool.eq_false_iff.2 fun separator => ?_⟩
    rcases blank c separator with rfl | rfl <;> cases digit
  | @identifier c _ starts =>
    refine ⟨_, _, rfl, Bool.eq_false_iff.2 fun separator => ?_⟩
    rcases blank c separator with rfl | rfl <;> cases starts
  | _ => exact ⟨_, _, rfl, rfl⟩

theorem Token.EndsBefore.append_newline {t : Token} {text : List Char} (ends : t.EndsBefore text)
    (rest : List Char) : t.EndsBefore (text ++ '\n' :: rest) := by
  cases text with
  | nil =>
    rintro c ⟨⟩
    cases t <;> rfl
  | cons c text => exact ends

namespace Statement

variable {a b : List Lexeme} {l : Lexeme} {tokens : List Placed}

theorem significant_append_eq_ok : significant (a ++ b) = .ok tokens ↔ ∃ before after,
    significant a = .ok before ∧ significant b = .ok after ∧ tokens = before ++ after := by
  unfold significant
  dsimp only
  rw [List.filter_append, List.mapM_append, bind_eq_ok]
  refine exists_congr fun before => ?_
  rw [bind_eq_ok, ← exists_and_left]
  simp [pure, Except.pure, eq_comm]

/-- A lexeme counts if it is a token. Comments are tokens that are left out. -/
theorem significant_singleton_eq_ok : significant [l] = .ok tokens ↔
    l.result = .ok .comment ∧ tokens = [] ∨
      ∃ t, t ≠ .comment ∧ l.result = .ok t ∧ tokens = [⟨t, l.span⟩] := by
  obtain ⟨span, result⟩ := l
  cases result with
  | error e => simp [significant, bind, Except.bind]
  | ok t =>
    cases t <;> simp [significant, bind, Except.bind, pure, Except.pure, eq_comm]

end Statement

namespace Lexes

variable {start : Nat} {c : Char} {text : List Char} {tokens : List Placed}

theorem nil_iff : Lexes start [] tokens ↔ tokens = [] := by
  refine ⟨fun h => ?_, fun h => h ▸ .nil⟩
  generalize none : [] = text at h
  cases h with
  | nil => rfl
  | blank => cases none
  | comment spelled | token spelled =>
    obtain ⟨_, _, rfl, -⟩ := spelled.exists_cons
    cases none

theorem blank_iff (separator : Lexeme.isSeparator c = true) :
    Lexes start (c :: text) tokens ↔ Lexes (start + c.utf8Size) text tokens := by
  refine ⟨fun h => ?_, .blank separator⟩
  generalize cut : c :: text = all at h
  cases h with
  | nil => cases cut
  | blank _ others =>
    cases cut
    exact others
  | comment spelled | token spelled =>
    obtain ⟨d, rest, rfl, other⟩ := spelled.exists_cons
    cases cut
    rw [separator] at other
    cases other

/-- A text that begins with no blank is cut where reading stops. -/
theorem first_iff (other : Lexeme.isSeparator c = false) {stop : Nat}
    (stop_eq : stop = start + Text.byteLength (Reading.first c text).covered) :
    Lexes start (c :: text) tokens ↔ ∃ noted others,
      Statement.significant [⟨⟨start, stop⟩, (Reading.first c text).result⟩] = .ok noted ∧
        Lexes stop (Reading.first c text).rest others ∧ tokens = noted ++ others := by
  subst stop_eq
  simp only [Statement.significant_singleton_eq_ok]
  constructor
  · intro h
    generalize cut : c :: text = all at h
    cases h with
    | nil => cases cut
    | blank separator =>
      cases cut
      rw [separator] at other
      cases other
    | comment spelled ends others =>
      obtain ⟨d, covered, rfl, -⟩ := spelled.exists_cons
      rw [List.cons_append] at cut
      cases cut
      rw [Reading.first_of_spelled spelled ends]
      exact ⟨[], _, .inl ⟨rfl, rfl⟩, others, rfl⟩
    | token spelled noComment ends others =>
      obtain ⟨d, covered, rfl, -⟩ := spelled.exists_cons
      rw [List.cons_append] at cut
      cases cut
      rw [Reading.first_of_spelled spelled ends]
      exact ⟨_, _, .inr ⟨_, noComment, rfl, rfl⟩, others, rfl⟩
  · rintro ⟨noted, others, counts, lexes, rfl⟩
    rw [← Reading.covered_append_rest c text]
    rcases counts with ⟨read, rfl⟩ | ⟨t, noComment, read, rfl⟩
    · obtain ⟨spelled, ends⟩ := Reading.spelled_of_first read
      exact .comment spelled ends lexes
    · obtain ⟨spelled, ends⟩ := Reading.spelled_of_first read
      exact .token spelled noComment ends lexes

end Lexes

/-- The induction goes along the reading, one blank or lexeme at a time. -/
theorem Statement.significant_readFrom {start : Nat} {done : Array Lexeme} {text : List Char}
    {tokens : List Placed} :
    significant (Lexeme.readFrom start done text).toList = .ok tokens ↔ ∃ before after,
      significant done.toList = .ok before ∧ Lexes start text after ∧ tokens = before ++ after := by
  fun_induction Lexeme.readFrom start done text with
  | case1 start done => simp [Lexes.nil_iff]
  | case2 start done c rest separator ih => simp only [ih, Lexes.blank_iff separator]
  | case3 start done c rest other reading stop ih =>
    simp only [ih, Array.toList_push, significant_append_eq_ok,
      Lexes.first_iff (Bool.eq_false_iff.2 other) (Eq.refl stop)]
    constructor
    · rintro ⟨_, after, ⟨before, noted, counts, counts', rfl⟩, lexes, rfl⟩
      exact ⟨before, _, counts, ⟨noted, after, counts', lexes, rfl⟩, List.append_assoc ..⟩
    · rintro ⟨before, _, counts, ⟨noted, after, counts', lexes, rfl⟩, rfl⟩
      exact ⟨_, after, ⟨before, noted, counts, counts', rfl⟩, lexes, (List.append_assoc ..).symm⟩

/-- The tokens of a source are those into which its text is cut. -/
theorem Statement.significant_ofSource_eq_ok {source : String} {tokens : List Placed} :
    significant (Lexeme.ofSource source) = .ok tokens ↔ Lexes 0 source.toList tokens := by
  rw [Lexeme.ofSource, significant_readFrom]
  constructor
  · rintro ⟨before, after, none, lexes, rfl⟩
    cases none
    exact lexes
  · intro lexes
    exact ⟨[], tokens, rfl, lexes, rfl⟩

namespace Lexes

variable {start : Nat} {text rest : List Char} {tokens others : List Placed}

theorem newline (h : Lexes (start + 1) rest others) :
    Lexes start ('\n' :: rest) (⟨.newline, ⟨start, start + 1⟩⟩ :: others) :=
  .token .newline nofun (fun _ _ => rfl) h

/-- What is in front of a newline is cut as if nothing came after it. -/
theorem append_newline (h : Lexes start text tokens)
    (after : Lexes (start + Text.byteLength text) ('\n' :: rest) others) :
    Lexes start (text ++ '\n' :: rest) (tokens ++ others) := by
  induction h with
  | nil => exact after
  | blank separator _ ih =>
    rw [Text.byteLength_cons, ← Nat.add_assoc] at after
    exact .blank separator (ih after)
  | comment spelled ends _ ih =>
    rw [Text.byteLength_append, ← Nat.add_assoc] at after
    rw [List.append_assoc]
    exact .comment spelled (ends.append_newline rest) (ih after)
  | token spelled noComment ends _ ih =>
    rw [Text.byteLength_append, ← Nat.add_assoc] at after
    rw [List.append_assoc, List.cons_append]
    exact .token spelled noComment (ends.append_newline rest) (ih after)

end Lexes

end Mips
