import Mips.Proofs.Lexing

/-!
# Lines of tokens

A source is read line by line: its tokens are cut at the newlines, and each line adds to what the
lines before it have come to. A newline token between two lists of tokens joins the lines of one to
the lines of the other.
-/
namespace Mips.Statement

variable {tokens others : List Placed} {span : Span}

theorem lines_cons_newline : lines (⟨.newline, span⟩ :: tokens) = [] :: lines tokens := rfl

theorem lines_cons {t : Placed} (inside : t.token ≠ .newline) {line : List Placed}
    {rest : List (List Placed)} (h : lines tokens = line :: rest) :
    lines (t :: tokens) = (t :: line) :: rest := by
  unfold lines at h ⊢
  rw [List.foldr_cons, h]
  split
  next newline => exact absurd newline inside
  next same _ =>
    cases same
    rfl
  next same _ => cases same

theorem lines_ne_nil (tokens : List Placed) : lines tokens ≠ [] := by
  induction tokens with
  | nil => nofun
  | cons t tokens ih =>
    obtain ⟨line, rest, same⟩ := List.exists_cons_of_ne_nil ih
    obtain ⟨token, span⟩ := t
    by_cases newline : token = .newline
    · subst newline
      rw [lines_cons_newline]
      nofun
    · rw [lines_cons newline same]
      nofun

theorem lines_append_newline :
    lines (tokens ++ ⟨.newline, span⟩ :: others) = lines tokens ++ lines others := by
  induction tokens with
  | nil => rfl
  | cons t tokens ih =>
    obtain ⟨line, rest, same⟩ := List.exists_cons_of_ne_nil (lines_ne_nil tokens)
    rw [same] at ih
    obtain ⟨token, span⟩ := t
    by_cases newline : token = .newline
    · subst newline
      rw [List.cons_append, lines_cons_newline, lines_cons_newline, ih, same]
      rfl
    · rw [List.cons_append, lines_cons newline ih, lines_cons newline same]
      rfl

theorem lines_of_forall_ne (inside : ∀ t ∈ tokens, t.token ≠ .newline) :
    lines tokens = [tokens] := by
  induction tokens with
  | nil => rfl
  | cons t tokens ih =>
    obtain ⟨first, others⟩ := List.forall_mem_cons.1 inside
    exact lines_cons first (ih others)

/-- The tokens of a line are next to each other. Those of the first line are the first of all. -/
theorem infixes_of_lines {line : List Placed} {rest : List (List Placed)}
    (h : lines tokens = line :: rest) :
    line <+: tokens ∧ ∀ other ∈ rest, other <:+: tokens := by
  induction tokens generalizing line rest with
  | nil =>
    cases h
    exact ⟨List.prefix_refl _, nofun⟩
  | cons t tokens ih =>
    obtain ⟨first, others, same⟩ := List.exists_cons_of_ne_nil (lines_ne_nil tokens)
    obtain ⟨here, later⟩ := ih same
    have laterInfix : ∀ other ∈ others, other <:+: t :: tokens :=
      fun other member => List.infix_cons (later other member)
    obtain ⟨token, span⟩ := t
    by_cases newline : token = .newline
    · subst newline
      rw [lines_cons_newline, same] at h
      cases h
      exact ⟨List.nil_prefix, List.forall_mem_cons.2 ⟨List.infix_cons here.isInfix, laterInfix⟩⟩
    · rw [lines_cons newline same] at h
      cases h
      exact ⟨(List.prefix_cons_inj _).2 here, laterInfix⟩

theorem infix_of_mem_lines {line : List Placed} (member : line ∈ lines tokens) :
    line <:+: tokens := by
  obtain ⟨first, rest, same⟩ := List.exists_cons_of_ne_nil (lines_ne_nil tokens)
  obtain ⟨here, later⟩ := infixes_of_lines same
  rw [same] at member
  rcases List.mem_cons.1 member with rfl | member
  · exact here.isInfix
  · exact later line member

theorem ne_newline_of_mem_lines {line : List Placed} (member : line ∈ lines tokens) :
    ∀ t ∈ line, t.token ≠ .newline := by
  induction tokens generalizing line with
  | nil =>
    obtain rfl := List.mem_singleton.1 member
    nofun
  | cons t tokens ih =>
    obtain ⟨first, rest, same⟩ := List.exists_cons_of_ne_nil (lines_ne_nil tokens)
    rw [same] at ih
    obtain ⟨token, span⟩ := t
    by_cases newline : token = .newline
    · subst newline
      rw [lines_cons_newline, same] at member
      rcases List.mem_cons.1 member with rfl | member
      · nofun
      · exact ih member
    · rw [lines_cons newline same] at member
      rcases List.mem_cons.1 member with rfl | member
      · exact List.forall_mem_cons.2 ⟨newline, ih List.mem_cons_self⟩
      · exact ih (List.mem_cons_of_mem _ member)

theorem mem_of_mem_lines {line : List Placed} (inside : line ∈ lines tokens) :
    ∀ t ∈ line, t ∈ tokens :=
  fun _ member => (infix_of_mem_lines inside).subset member

theorem flatten_lines (tokens : List Placed) :
    (lines tokens).flatten = tokens.filter fun t => t.token ≠ .newline := by
  induction tokens with
  | nil => rfl
  | cons t tokens ih =>
    obtain ⟨line, rest, same⟩ := List.exists_cons_of_ne_nil (lines_ne_nil tokens)
    obtain ⟨token, span⟩ := t
    by_cases newline : token = .newline
    · subst newline
      rw [lines_cons_newline, List.filter_cons_of_neg (by simp), ← ih]
      rfl
    · rw [lines_cons newline same, List.filter_cons_of_pos (by simpa using newline), ← ih, same]
      rfl

theorem flatten_lines_sublist (tokens : List Placed) : (lines tokens).flatten.Sublist tokens := by
  rw [flatten_lines]
  exact List.filter_sublist

/-- Where the tokens of a statement stand, the one of its mnemonic or directive first. -/
def extent (first : Placed) (rest : List Placed) : Span :=
  ⟨first.span.start, (rest.getLastD first).span.stop⟩

theorem exists_concat_getLastD (first : Placed) (rest : List Placed) :
    ∃ init, first :: rest = init ++ [rest.getLastD first] := by
  rw [← List.getLast_eq_getLastD (h := List.cons_ne_nil first rest)]
  exact ⟨_, (List.dropLast_concat_getLast _).symm⟩

/-- Labels as they are written, each a name with a colon after it. -/
inductive Labels : List Placed → List Label → Prop
  | nil : Labels [] []
  | cons {name : String} {span colon : Span} {tokens : List Placed} {labels : List Label} :
      Labels tokens labels →
      Labels (⟨.identifier name, span⟩ :: ⟨.colon, colon⟩ :: tokens) (⟨name, span.start⟩ :: labels)

def BeginsWithLabel (tokens : List Placed) : Prop :=
  ∃ name span colon rest, tokens = ⟨.identifier name, span⟩ :: ⟨.colon, colon⟩ :: rest

theorem leadingLabels_of_not_beginsWithLabel (waiting : Array Label)
    (other : ¬BeginsWithLabel tokens) : leadingLabels waiting tokens = (waiting, tokens) := by
  unfold leadingLabels
  split
  next name span colon rest => exact absurd ⟨name, span, colon, rest, rfl⟩ other
  next => rfl

theorem leadingLabels_eq_iff {waiting all : Array Label} {line rest : List Placed} :
    leadingLabels waiting line = (all, rest) ↔ ∃ written labels, Labels written labels ∧
      line = written ++ rest ∧ ¬BeginsWithLabel rest ∧ all = waiting ++ labels.toArray := by
  constructor
  · intro cut
    fun_induction leadingLabels waiting line with
    | case1 waiting name span colon line ih =>
      obtain ⟨written, labels, reads, rfl, other, rfl⟩ := ih cut
      exact ⟨_, _, .cons reads, rfl, other, by simp⟩
    | case2 waiting line other =>
      cases cut
      refine ⟨[], [], .nil, rfl, ?_, by simp⟩
      rintro ⟨name, span, colon, rest, begins⟩
      exact other name span colon rest begins
  · rintro ⟨written, labels, reads, rfl, other, rfl⟩
    induction reads generalizing waiting with
    | nil => rw [List.nil_append, leadingLabels_of_not_beginsWithLabel waiting other]; simp
    | cons _ ih =>
      rw [List.cons_append, List.cons_append, leadingLabels, ih]
      simp

/-- A line has nothing but labels, or what follows its labels makes a statement with all labels that
wait. -/
theorem Progress.addLine_eq_ok {statements : Array Statement} {waiting : Array Label}
    {line : List Placed} {p : Progress} : addLine ⟨statements, waiting⟩ line = .ok p ↔
      ∃ written labels rest, Labels written labels ∧ line = written ++ rest ∧
        ¬BeginsWithLabel rest ∧ (rest = [] ∧ p = ⟨statements, waiting ++ labels.toArray⟩ ∨
          ∃ first others nucleus, rest = first :: others ∧
            Nucleus.ofTokens first others (extent first others) = .ok nucleus ∧
            p = ⟨statements.push ⟨waiting.toList ++ labels, nucleus, extent first others⟩,
              #[]⟩) := by
  constructor
  · intro h
    unfold addLine at h
    dsimp only at h
    split at h
    next all cut =>
      cases h
      obtain ⟨written, labels, reads, same, other, rfl⟩ := leadingLabels_eq_iff.1 cut
      exact ⟨written, labels, [], reads, same, other, .inl ⟨rfl, rfl⟩⟩
    next all first others cut =>
      split at h
      next nucleus read =>
        cases h
        obtain ⟨written, labels, reads, same, other, rfl⟩ := leadingLabels_eq_iff.1 cut
        exact ⟨written, labels, first :: others, reads, same, other,
          .inr ⟨first, others, nucleus, rfl, read, by simp [extent]⟩⟩
      next => cases h
  · rintro ⟨written, labels, rest, reads, same, other, h⟩
    have cut : leadingLabels waiting line = (waiting ++ labels.toArray, rest) :=
      leadingLabels_eq_iff.2 ⟨written, labels, reads, same, other, rfl⟩
    unfold addLine
    dsimp only
    rw [cut]
    rcases h with ⟨rfl, rfl⟩ | ⟨first, others, nucleus, rfl, read, rfl⟩
    · rfl
    · unfold extent at read ⊢
      dsimp only
      rw [read]
      simp

theorem Progress.finish_nil (statements : Array Statement) (stop : Nat) :
    finish ⟨statements, #[]⟩ stop = statements.toList := rfl

theorem Progress.finish_cons (statements : Array Statement) (label : Label) (waiting : List Label)
    (stop : Nat) : finish ⟨statements, ⟨label :: waiting⟩⟩ stop =
      statements.toList ++ [⟨label :: waiting, .empty, ⟨stop, stop⟩⟩] := by
  simp [finish]

/-- The statements of a source are those to which the lines of its tokens add up. -/
theorem parse_eq_ok {source : String} {statements : List Statement} :
    parse source = .ok statements ↔ ∃ tokens p, Lexes 0 source.toList tokens ∧
      (lines tokens).foldlM Progress.addLine ⟨#[], #[]⟩ = .ok p ∧
        p.finish source.utf8ByteSize = statements := by
  unfold parse
  simp only [bind_eq_ok, significant_ofSource_eq_ok, pure, Except.pure, Except.ok.injEq,
    exists_and_left]

end Mips.Statement
