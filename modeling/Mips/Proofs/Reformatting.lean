import Mips.Proofs.CanonicalLines
import Mips.Proofs.KeptTexts
import Mips.Proofs.TokenLines

/-!
# Reformatting

The layout of a source is its blanks at the beginning of lines, its comments, its lines without
tokens and the characters that end its lines. A source in another layout has the same tokens on the
lines that it shares with the first one, and the same statements at other places.
-/
namespace Mips

open Token

def Text.Blanks (text : List Char) : Prop :=
  ∀ c ∈ text, Lexeme.isSeparator c = true

def Text.Remark (text : List Char) : Prop :=
  text = [] ∨ ∃ body, text = '#' :: body ∧ '\n' ∉ body

/-- The second line is the first one with blanks in front of it and with a comment behind it. -/
def Text.Dressed (line line' : List Char) : Prop :=
  ∃ blanks remark, Blanks blanks ∧ Remark remark ∧ line' = blanks ++ (line ++ remark)

/-- The second list has the lines of the first one, dressed, and lines without tokens. -/
inductive Text.Reformats : List (List Char) → List (List Char) → Prop
  | nil : Reformats [] []
  | keep {line line' : List Char} {ls ls' : List (List Char)} : Dressed line line' →
      Reformats ls ls' → Reformats (line :: ls) (line' :: ls')
  | insert {extra : List Char} {ls ls' : List (List Char)} : Dressed [] extra →
      Reformats ls ls' → Reformats ls (extra :: ls')

/-- The text has the lines, each but the last with a newline behind it, or with a carriage return
and a newline. -/
inductive Text.Joined : List (List Char) → List Char → Prop
  | last {line : List Char} : Joined [line] line
  | cons {line ending text : List Char} {ls : List (List Char)} : ending = [] ∨ ending = ['\r'] →
      Joined ls text → Joined (line :: ls) (line ++ (ending ++ '\n' :: text))

/-- A comment goes on with whatever stands behind it on its line. -/
theorem Token.Spelled.comment_append {written trail : List Char}
    (spelled : Spelled written .comment)
    (level : '\n' ∉ trail) : Spelled (written ++ trail) .comment := by
  cases spelled with
  | comment all =>
    refine .comment (List.forall_mem_append.2 ⟨all, fun c member newline => ?_⟩)
    exact level (newline ▸ member)
  | signed _ read => obtain ⟨_, ⟨⟩⟩ := Reading.eq_signed read
  | register _ read => obtain ⟨_, ⟨⟩⟩ := Reading.eq_register read
  | unsigned _ _ read => obtain ⟨_, ⟨⟩⟩ := Reading.eq_unsigned read

namespace Lexes

variable {start : Nat} {line text blanks trail ending rest : List Char} {tokens after : List Placed}

theorem blanks_append (all : Text.Blanks blanks)
    (h : Lexes (start + Text.byteLength blanks) text tokens) :
    Lexes start (blanks ++ text) tokens := by
  induction blanks generalizing start with
  | nil => exact h
  | cons c blanks ih =>
    obtain ⟨first, others⟩ := List.forall_mem_cons.1 all
    rw [Text.byteLength_cons, ← Nat.add_assoc] at h
    exact .blank first (ih others h)

/-- What stands behind a line does not go on with any token of it but a comment. -/
def Apart (text : List Char) : Prop :=
  ∀ c, text.head? = some c → c = '#' ∨ c = '\r' ∨ c = '\n'

theorem Apart.endsBefore {t : Token} (apart : Apart text) (noComment : t ≠ .comment) :
    t.EndsBefore text := by
  intro c head
  rcases apart c head with rfl | rfl | rfl <;> cases t <;> first | rfl | exact absurd rfl noComment

/-- What stands behind a line is read by itself, or from where a comment of the line ends. -/
theorem exists_append {trail back : List Char} {Q : List Placed → Prop}
    (h : Lexes start line tokens) (level : '\n' ∉ line) (level' : '\n' ∉ trail)
    (apart : Apart (trail ++ back)) (stops : Token.comment.EndsBefore back)
    (plain : ∃ others, Lexes (start + Text.byteLength line) (trail ++ back) others ∧ Q others)
    (commented : ∃ others,
      Lexes (start + Text.byteLength line + Text.byteLength trail) back others ∧ Q others) :
    ∃ others, Lexes start (line ++ (trail ++ back)) (tokens ++ others) ∧ Q others := by
  induction h with
  | nil => exact plain
  | @blank start c text tokens separator _ ih =>
    rw [Text.byteLength_cons, ← Nat.add_assoc] at plain commented
    obtain ⟨others, lexes, ends⟩ :=
      ih (fun member => level (List.mem_cons_of_mem _ member)) plain commented
    exact ⟨others, .blank separator lexes, ends⟩
  | @comment start written text tokens spelled ends others ih =>
    cases text with
    | nil =>
      obtain rfl := nil_iff.1 others
      obtain ⟨others, lexes, found⟩ := commented
      rw [List.append_nil, Nat.add_assoc, ← Text.byteLength_append] at lexes
      rw [List.append_nil, ← List.append_assoc]
      exact ⟨others, .comment (spelled.comment_append level') stops lexes, found⟩
    | cons c text =>
      have newline : c = '\n' := by simpa [continues] using ends c rfl
      exact absurd (List.mem_append_right _ (newline ▸ List.mem_cons_self)) level
  | @token start written text t tokens spelled noComment ends _ ih =>
    rw [Text.byteLength_append, ← Nat.add_assoc] at plain commented
    obtain ⟨others, lexes, found⟩ :=
      ih (fun member => level (List.mem_append_right _ member)) plain commented
    have stops : t.EndsBefore (text ++ (trail ++ back)) := by
      cases text with
      | nil => exact apart.endsBefore noComment
      | cons c text => exact ends
    rw [List.append_assoc]
    exact ⟨others, .token spelled noComment stops lexes, found⟩

theorem returnNewline (h : Lexes (start + 2) rest after) :
    Lexes start ('\r' :: '\n' :: rest) (⟨.newline, ⟨start, start + 2⟩⟩ :: after) :=
  .token .returnNewline nofun (fun _ _ => rfl) h

theorem remark_append {body back : List Char} (level : '\n' ∉ body)
    (stops : Token.comment.EndsBefore back)
    (h : Lexes (start + Text.byteLength ('#' :: body)) back tokens) :
    Lexes start ('#' :: body ++ back) tokens :=
  .comment (.comment fun _ member newline => level (newline ▸ member)) stops h

theorem append_remark (h : Lexes start line tokens) (level : '\n' ∉ line)
    (remark : Text.Remark trail) : Lexes start (line ++ trail) tokens := by
  have stops : Token.comment.EndsBefore [] := nofun
  obtain ⟨others, lexes, rfl⟩ : ∃ others, Lexes start (line ++ (trail ++ [])) (tokens ++ others) ∧
      others = [] := by
    rcases remark with rfl | ⟨body, rfl, level'⟩
    · exact h.exists_append level nofun nofun stops ⟨_, .nil, rfl⟩ ⟨_, .nil, rfl⟩
    · have apart : Apart ('#' :: body ++ []) := by
        rintro c ⟨⟩
        exact .inl rfl
      refine h.exists_append level (by simpa using level') apart stops ?_ ⟨_, .nil, rfl⟩
      exact ⟨_, .remark_append level' stops .nil, rfl⟩
  rwa [List.append_nil, List.append_nil] at lexes

theorem append_remark_newline (h : Lexes start line tokens) (level : '\n' ∉ line)
    (remark : Text.Remark trail) (ends : ending = [] ∨ ending = ['\r'])
    (later : Lexes (start + Text.byteLength line + Text.byteLength (trail ++ ending) + 1) rest
      after) : ∃ span, Lexes start (line ++ (trail ++ ending ++ '\n' :: rest))
        (tokens ++ ⟨.newline, span⟩ :: after) := by
  have stops : Token.comment.EndsBefore ('\n' :: rest) := by
    rintro c ⟨⟩
    rfl
  have noNewline : '\n' ∉ ending := by rcases ends with rfl | rfl <;> decide
  obtain ⟨others, lexes, span, rfl⟩ : ∃ others,
      Lexes start (line ++ (trail ++ ending ++ '\n' :: rest)) (tokens ++ others) ∧
        ∃ span, others = ⟨.newline, span⟩ :: after := by
    have commented : ∃ others, Lexes
        (start + Text.byteLength line + Text.byteLength (trail ++ ending)) ('\n' :: rest) others ∧
          ∃ span, others = ⟨.newline, span⟩ :: after := ⟨_, .newline later, _, rfl⟩
    rcases remark with rfl | ⟨body, rfl, level'⟩
    · refine h.exists_append level noNewline ?_ stops ?_ commented
      · rcases ends with rfl | rfl
        · rintro c ⟨⟩
          exact .inr (.inr rfl)
        · rintro c ⟨⟩
          exact .inr (.inl rfl)
      · rcases ends with rfl | rfl
        · exact commented
        · exact ⟨_, .returnNewline later, _, rfl⟩
    · have noNewline' : '\n' ∉ body ++ ending := by simp [level', noNewline]
      refine h.exists_append level (by simpa using noNewline') ?_ stops ?_ commented
      · rintro c ⟨⟩
        exact .inl rfl
      · obtain ⟨others, lexes, found⟩ := commented
        exact ⟨others, .remark_append noNewline' stops lexes, found⟩
  exact ⟨span, lexes⟩

/-- Where a line stands only matters for the places of its tokens. -/
theorem exists_elsewhere (h : Lexes start text tokens) (place : Nat) :
    ∃ f, Lexes place text (tokens.map (Placed.moved f)) := by
  rw [← Nat.zero_add start] at h
  obtain ⟨tokens', lexes, rfl⟩ := h.exists_unmoved
  refine ⟨fun n => n - start + place, ?_⟩
  have same : (fun n => n - start + place) ∘ (· + start) = (· + place) := by
    funext n
    simp
  have moved := lexes.moved place
  rw [Nat.zero_add] at moved
  have back : tokens'.map (Placed.moved (· + place)) =
      (tokens'.map (Placed.moved (· + start))).map (Placed.moved fun n => n - start + place) := by
    simp [Placed.moved, Span.moved]
  rwa [back] at moved

variable {line' : List Char} {ls : List (List Char)}

theorem exists_dressed (dressed : Text.Dressed line line') (h : Lexes start line tokens)
    (level : '\n' ∉ line) (place : Nat) :
    ∃ f, Lexes place line' (tokens.map (Placed.moved f)) := by
  obtain ⟨blanks, remark, all, rest, rfl⟩ := dressed
  obtain ⟨f, there⟩ := h.exists_elsewhere (place + Text.byteLength blanks)
  exact ⟨f, blanks_append all (there.append_remark level rest)⟩

theorem exists_dressed_newline (dressed : Text.Dressed line line') (h : Lexes start line tokens)
    (level : '\n' ∉ line) {place : Nat} (ends : ending = [] ∨ ending = ['\r'])
    (later : Lexes (place + Text.byteLength (line' ++ ending) + 1) rest after) :
    ∃ f span, Lexes place (line' ++ (ending ++ '\n' :: rest))
      (tokens.map (Placed.moved f) ++ ⟨.newline, span⟩ :: after) := by
  obtain ⟨blanks, remark, all, rest', rfl⟩ := dressed
  obtain ⟨f, there⟩ := h.exists_elsewhere (place + Text.byteLength blanks)
  have place_eq : place + Text.byteLength (blanks ++ (line ++ remark) ++ ending) =
      place + Text.byteLength blanks + Text.byteLength line +
        Text.byteLength (remark ++ ending) := by
    simp only [Text.byteLength_append, Nat.add_assoc]
  rw [place_eq] at later
  obtain ⟨span, lexes⟩ := there.append_remark_newline level rest' ends later
  refine ⟨f, span, ?_⟩
  have text : blanks ++ (line ++ remark) ++ (ending ++ '\n' :: rest) =
      blanks ++ (line ++ (remark ++ ending ++ '\n' :: rest)) := by simp
  rw [text]
  exact blanks_append all lexes

theorem exists_joined_cons {P : List (List Placed) → Prop} {place : Nat}
    (dressed : Text.Dressed line line') (h : Lexes start line tokens) (level : '\n' ∉ line)
    (joined : Text.Joined (line' :: ls) text) (last : ls = [] → P [])
    (later : ∀ rest place, Text.Joined ls rest →
      ∃ after, Lexes place rest after ∧ P (Statement.lines after)) :
    ∃ f tokens' others, Lexes place text tokens' ∧
      Statement.lines tokens' = tokens.map (Placed.moved f) :: others ∧ P others := by
  have inside (f : Nat → Nat) : ∀ t ∈ tokens.map (Placed.moved f), t.token ≠ .newline :=
    List.forall_mem_map.2 (h.ne_newline level)
  cases joined with
  | last =>
    obtain ⟨f, lexes⟩ := exists_dressed dressed h level place
    exact ⟨f, _, [], lexes, Statement.lines_of_forall_ne (inside f), last rfl⟩
  | cons ends joined =>
    obtain ⟨after, behind, found⟩ := later _ _ joined
    obtain ⟨f, span, lexes⟩ := exists_dressed_newline dressed h level ends behind
    refine ⟨f, _, _, lexes, ?_, found⟩
    rw [Statement.lines_append_newline, Statement.lines_of_forall_ne (inside f)]
    rfl

end Lexes

/-- The second list has the lines of the first one with other places, and empty lines. -/
inductive Statement.Padded : List (List Placed) → List (List Placed) → Prop
  | nil : Padded [] []
  | keep {line : List Placed} {ls ls' : List (List Placed)} (f : Nat → Nat) : Padded ls ls' →
      Padded (line :: ls) (line.map (Placed.moved f) :: ls')
  | insert {ls ls' : List (List Placed)} : Padded ls ls' → Padded ls ([] :: ls')

/-- The tokens are those of a line of text, wherever this stands. -/
def Text.Level (line : List Char) (tokens : List Placed) : Prop :=
  '\n' ∉ line ∧ ∃ start, Lexes start line tokens

/-- A reformatted text has the tokens of the lines, and empty lines. -/
theorem Text.Reformats.exists_lexes {ls ls' : List (List Char)} {read : List (List Placed)}
    {text : List Char} (reformats : Reformats ls ls') (level : List.Forall₂ Level ls read)
    (joined : Joined ls' text) (start : Nat) :
    ∃ tokens, Lexes start text tokens ∧ Statement.Padded read (Statement.lines tokens) := by
  induction reformats generalizing read text start with
  | nil => cases joined
  | @keep line line' ls ls' dressed reformats ih =>
    obtain ⟨piece, pieces, ⟨noNewline, place, lexes⟩, others, rfl⟩ :=
      List.forall₂_cons_left_iff.1 level
    have last : ls' = [] → Statement.Padded pieces [] := by
      rintro rfl
      cases reformats
      cases others
      exact .nil
    obtain ⟨f, tokens, rest, lexes, same, padded⟩ := Lexes.exists_joined_cons dressed lexes
      noNewline joined last fun rest place joined => ih others joined place
    exact ⟨tokens, lexes, same ▸ .keep f padded⟩
  | @insert extra ls ls' dressed reformats ih =>
    have last : ls' = [] → Statement.Padded read [] := by
      rintro rfl
      cases reformats
      cases level
      exact .nil
    have empty : Lexes 0 [] [] := .nil
    obtain ⟨f, tokens, rest, lexes, same, padded⟩ := Lexes.exists_joined_cons dressed empty nofun
      joined last fun rest place joined => ih level joined place
    exact ⟨tokens, lexes, same ▸ .insert padded⟩

/-- A text without carriage returns has the tokens of its lines. -/
theorem SourceText.Cuts.forall₂_level {start : Nat} {text : List Char} {ls : List Line}
    {tokens : List Placed} (cuts : Cuts start text ls) (noReturn : '\r' ∉ text)
    (lexes : Lexes start text tokens) :
    List.Forall₂ Text.Level (ls.map Line.text) (Statement.lines tokens) := by
  induction cuts generalizing tokens with
  | last level =>
    rw [Statement.lines_of_forall_ne (lexes.ne_newline level)]
    exact .cons ⟨level, _, lexes⟩ .nil
  | cons level _ ih =>
    obtain ⟨before, _, after, -, ⟨body, cut, first⟩, same, second⟩ := exists_tokens_cons level lexes
    rw [List.mem_append, List.mem_cons, not_or, not_or] at noReturn
    rw [same]
    rcases cut with rfl | rfl
    · exact .cons ⟨level, _, first⟩ (ih noReturn.2.2 second)
    · exact absurd (List.mem_append_right _ (List.mem_singleton_self _)) noReturn.1

theorem Nucleus.moved_moved (f g : Nat → Nat) (n : Nucleus) :
    (n.moved f).moved g = n.moved (g ∘ f) := by
  cases n with
  | instr i =>
    cases i with
    | mem op rt address => cases address <;> rfl
    | _ => rfl
  | directive d => cases d <;> rfl
  | empty => rfl

namespace Statement

namespace Progress

variable {p p' q : Progress} {line : List Placed} {ls ls' : List (List Placed)}

/-- The same progress, perhaps at other places. -/
structure Alike (p p' : Progress) : Prop where
  statements : p.statements.toList.map (Statement.moved nowhere) =
    p'.statements.toList.map (Statement.moved nowhere)
  waiting : p.waiting.toList.map (Label.moved nowhere) =
    p'.waiting.toList.map (Label.moved nowhere)

/-- A line adds the same at another place to what is the same at other places. -/
theorem Alike.addLine (alike : p.Alike p') (h : p.addLine line = .ok q) (f : Nat → Nat) :
    ∃ q', p'.addLine (line.map (Placed.moved f)) = .ok q' ∧ q.Alike q' := by
  obtain ⟨statements, waiting⟩ := p
  obtain ⟨statements', waiting'⟩ := p'
  obtain ⟨before, names⟩ := alike
  obtain ⟨written, labels, rest, reads, rfl, other, h⟩ := addLine_eq_ok.1 h
  have other' : ¬BeginsWithLabel (rest.map (Placed.moved f)) :=
    fun begins => other (beginsWithLabel_of_moved begins)
  have all : (waiting.toList ++ labels).map (Label.moved nowhere) =
      (waiting'.toList ++ labels.map (Label.moved f)).map (Label.moved nowhere) := by
    rw [List.map_append, List.map_append, names, List.map_map]
    rfl
  rcases h with ⟨rfl, rfl⟩ | ⟨first, others, nucleus, rfl, read, rfl⟩
  · refine ⟨_, addLine_eq_ok.2 ⟨_, _, _, reads.moved, List.map_append, other',
      .inl ⟨rfl, rfl⟩⟩, before, ?_⟩
    rw [Array.toList_append, Array.toList_append]
    exact all
  · refine ⟨_, addLine_eq_ok.2 ⟨_, _, _, reads.moved, List.map_append, other',
      .inr ⟨_, _, _, rfl, Nucleus.ofTokens_moved read, rfl⟩⟩, ?_, rfl⟩
    have last : Statement.moved nowhere ⟨waiting.toList ++ labels, nucleus, extent first others⟩ =
        Statement.moved nowhere ⟨waiting'.toList ++ labels.map (Label.moved f), nucleus.moved f,
          extent (first.moved f) (others.map (Placed.moved f))⟩ := by
      rw [Statement.moved, Statement.moved, all, Nucleus.moved_moved]
      rfl
    rw [Array.toList_push, Array.toList_push, List.map_append, List.map_append, before,
      List.map_singleton, last]
    rfl

theorem Alike.foldlM_addLine (padded : Padded ls ls') (alike : p.Alike p')
    (h : ls.foldlM Progress.addLine p = .ok q) :
    ∃ q', ls'.foldlM Progress.addLine p' = .ok q' ∧ q.Alike q' := by
  induction padded generalizing p p' with
  | nil =>
    cases h
    exact ⟨p', rfl, alike⟩
  | keep f _ ih =>
    obtain ⟨m, first, others⟩ := foldlM_cons_eq_ok.1 h
    obtain ⟨m', first', alike'⟩ := alike.addLine first f
    obtain ⟨q', others', same⟩ := ih alike' others
    exact ⟨q', foldlM_cons_eq_ok.2 ⟨m', first', others'⟩, same⟩
  | insert _ ih =>
    obtain ⟨q', others, same⟩ := ih alike h
    exact ⟨q', foldlM_cons_eq_ok.2 ⟨p', rfl, others⟩, same⟩

theorem Alike.finish (alike : p.Alike p') (stop stop' : Nat) :
    (p.finish stop).map (Statement.moved nowhere) =
      (p'.finish stop').map (Statement.moved nowhere) := by
  obtain ⟨statements, ⟨waiting⟩⟩ := p
  obtain ⟨statements', ⟨waiting'⟩⟩ := p'
  obtain ⟨before, names⟩ := alike
  cases waiting with
  | nil =>
    obtain rfl : waiting' = [] := List.map_eq_nil_iff.1 names.symm
    exact before
  | cons label waiting =>
    obtain ⟨label', waiting', rfl, -⟩ := List.map_eq_cons_iff.1 names.symm
    have last : ∀ nucleus span, Statement.moved nowhere ⟨label :: waiting, nucleus, span⟩ =
        ⟨(label' :: waiting').map (Label.moved nowhere), nucleus.moved nowhere,
          span.moved nowhere⟩ := fun nucleus span => by rw [← names]; rfl
    rw [finish_cons, finish_cons, List.map_append, List.map_append, before, List.map_singleton,
      last]
    rfl

end Progress

/-- Another layout of a source without carriage returns has the same statements at other places. -/
theorem parse_reformatted {source again : String} {statements : List Statement}
    (parsed : parse source = .ok statements) (noReturn : '\r' ∉ source.toList)
    {ls : List (List Char)}
    (reformats : Text.Reformats ((SourceText.lines source).toList.map Line.text) ls)
    (joined : Text.Joined ls again.toList) : ∃ statements', parse again = .ok statements' ∧
      statements'.map (Statement.moved nowhere) = statements.map (Statement.moved nowhere) := by
  obtain ⟨tokens, p, lexes, read, rfl⟩ := parse_eq_ok.1 parsed
  have level := (SourceText.cuts_lines source).forall₂_level noReturn lexes
  obtain ⟨tokens', lexes', padded⟩ := reformats.exists_lexes level joined 0
  obtain ⟨p', read', alike⟩ := Progress.Alike.foldlM_addLine padded ⟨rfl, rfl⟩ read
  exact ⟨_, parse_eq_ok.2 ⟨tokens', p', lexes', read', rfl⟩, (alike.finish _ _).symm⟩

def plain : String :=
  "a: li T0, 1 # one\nb:\n.asciiz \"#\""

/-- The same with lines put in, other beginnings and ends of lines, and both kinds of newline. -/
def ornate : String :=
  "# top\n\ta: li T0, 1 # one#\r\r\n\r\nb:\n .asciiz \"#\"# \"\r\n "

def plainStatements : List Statement :=
  [⟨[⟨"a", 0⟩], .instr (.li ⟨8⟩ 1), ⟨3, 11⟩⟩,
   ⟨[⟨"b", 18⟩], .directive (.asciiz "#"), ⟨21, 32⟩⟩]

theorem parse_reformatted_ornate : parse plain = .ok plainStatements ∧ '\r' ∉ plain.toList ∧
    ∃ statements, parse ornate = .ok statements ∧
      statements.map (Statement.moved nowhere) = plainStatements.map (Statement.moved nowhere) := by
  have parsed : parse plain = .ok plainStatements := by decide +kernel
  have noReturn : '\r' ∉ plain.toList := by decide +kernel
  have cut : (SourceText.lines plain).toList.map Line.text =
      ["a: li T0, 1 # one".toList, "b:".toList, ".asciiz \"#\"".toList] := by decide +kernel
  have same : Text.Reformats ((SourceText.lines plain).toList.map Line.text)
      ["# top".toList, "\ta: li T0, 1 # one#\r".toList, [], "b:".toList,
        " .asciiz \"#\"# \"".toList, " ".toList] := by
    rw [cut]
    refine .insert ⟨[], "# top".toList, nofun, .inr ⟨_, rfl, by decide⟩, rfl⟩ ?_
    refine .keep ⟨['\t'], ['#', '\r'], by simp [Text.Blanks, Lexeme.isSeparator],
      .inr ⟨_, rfl, by decide⟩, rfl⟩ ?_
    refine .insert ⟨[], [], nofun, .inl rfl, rfl⟩ ?_
    refine .keep ⟨[], [], nofun, .inl rfl, rfl⟩ ?_
    refine .keep ⟨[' '], "# \"".toList, by simp [Text.Blanks, Lexeme.isSeparator],
      .inr ⟨_, rfl, by decide⟩, rfl⟩ ?_
    exact .insert ⟨[' '], [], by simp [Text.Blanks, Lexeme.isSeparator], .inl rfl, rfl⟩ .nil
  have joined : Text.Joined ["# top".toList, "\ta: li T0, 1 # one#\r".toList, [], "b:".toList,
      " .asciiz \"#\"# \"".toList, " ".toList] ornate.toList :=
    .cons (.inl rfl) (.cons (.inr rfl) (.cons (.inr rfl) (.cons (.inl rfl)
      (.cons (.inr rfl) .last))))
  exact ⟨parsed, noReturn, parse_reformatted parsed noReturn same joined⟩

end Statement

end Mips
