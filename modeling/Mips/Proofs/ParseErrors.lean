import Mips.Proofs.Signatures
import Mips.Proofs.Tiling

/-!
# Where a source is malformed

An error of the parser points to tokens next to each other on one line, or to a lexeme that is none.
What is read in parts fails where one of its parts does, so that each function of the parser has one
lemma about the places of its errors, whatever is known of these places.
-/
namespace Mips

variable {ε α β : Type} [Diagnostic ε] {P : Span → Prop}

/-- Every error of the computation points somewhere, and only to places with the property. -/
def FailsAt (P : Span → Prop) (x : Except ε α) : Prop :=
  ∀ e, x = .error e → ∃ places, Diagnostic.places e = some places ∧ places.toList ≠ [] ∧
    ∀ span ∈ places.toList, P span

theorem failsAt_ok (a : α) : FailsAt P (.ok a : Except ε α) := nofun

theorem FailsAt.bind {x : Except ε α} {f : α → Except ε β} (first : FailsAt P x)
    (later : ∀ a, x = .ok a → FailsAt P (f a)) : FailsAt P (x >>= f) := by
  cases x with
  | error e =>
    intro e' same
    cases same
    exact first e rfl
  | ok a => exact later a rfl

theorem FailsAt.map {x : Except ε α} (f : α → β) (fails : FailsAt P x) : FailsAt P (x.map f) := by
  cases x with
  | error e =>
    intro e' same
    cases same
    exact fails e rfl
  | ok a => exact failsAt_ok (f a)

theorem failsAt_mapM {f : α → Except ε β} {list : List α} (each : ∀ a ∈ list, FailsAt P (f a)) :
    FailsAt P (list.mapM f) := by
  induction list with
  | nil => exact failsAt_ok []
  | cons a list ih =>
    obtain ⟨first, others⟩ := List.forall_mem_cons.1 each
    rw [List.mapM_cons]
    exact first.bind fun _ _ => (ih others).bind fun _ _ => failsAt_ok _

/-- A fold fails where one of its steps does, none of which leaves the invariant. -/
theorem failsAt_foldlM (I : β → Prop) {step : β → α → Except ε β} {list : List α} {x : β}
    (each : ∀ a ∈ list, ∀ x, I x → FailsAt P (step x a))
    (keeps : ∀ a ∈ list, ∀ x y, step x a = .ok y → I x → I y) (start : I x) :
    FailsAt P (list.foldlM step x) := by
  induction list generalizing x with
  | nil => exact failsAt_ok x
  | cons a list ih =>
    obtain ⟨first, others⟩ := List.forall_mem_cons.1 each
    obtain ⟨kept, keeps⟩ := List.forall_mem_cons.1 keeps
    rw [List.foldlM_cons]
    exact (first x start).bind fun y ran => ih others keeps (kept x y ran start)

theorem ParseError.failsAt {span : Span} {cause : Cause} (here : P span) :
    FailsAt P (.error (.atSpan span cause) : Except ParseError α) := by
  intro e same
  cases same
  exact ⟨.one span, rfl, nofun, List.forall_mem_singleton.2 here⟩

namespace Operand

variable {o : Operand} {t : Placed} {tokens rest : List Placed} {span : Span}

theorem failsAt_namedRegister {name : String} (here : P span) :
    FailsAt P (namedRegister name span) := by
  unfold namedRegister
  split
  · exact failsAt_ok _
  · exact ParseError.failsAt here

theorem failsAt_register (here : P o.span) : FailsAt P o.register := by
  unfold register
  split
  · exact failsAt_ok _
  · exact failsAt_namedRegister here
  · exact ParseError.failsAt here

theorem failsAt_label (here : P o.span) : FailsAt P o.label := by
  unfold label
  split
  · exact failsAt_ok _
  · exact ParseError.failsAt here

theorem failsAt_integer (here : P o.span) : FailsAt P o.integer := by
  unfold integer
  split
  · exact failsAt_ok _
  · exact ParseError.failsAt here

theorem failsAt_word (here : P o.span) : FailsAt P o.word :=
  (failsAt_integer here).map _

theorem failsAt_shiftAmount (here : P o.span) : FailsAt P o.shiftAmount :=
  (failsAt_integer here).map _

theorem failsAt_address (here : P o.span) : FailsAt P o.address := by
  unfold address
  split
  · exact failsAt_ok _
  · exact failsAt_ok _
  · exact ParseError.failsAt here

theorem failsAt_text (here : P o.span) : FailsAt P o.text := by
  unfold text
  split
  · exact failsAt_ok _
  · exact ParseError.failsAt here

theorem failsAt_access {offset : Int} {start close : Span} (here : P t.span) :
    FailsAt P (access offset start t close) := by
  have base : FailsAt P (baseRegister t) := by
    unfold baseRegister
    split
    · exact failsAt_ok _
    · exact failsAt_namedRegister here
    · exact ParseError.failsAt here
  intro e failed
  unfold access at failed
  split at failed
  · cases failed
  next e' failed' =>
    cases failed
    exact base e failed'

theorem failsAt_phrase (all : ∀ u ∈ t :: rest, P u.span) : FailsAt P (phrase t rest) := by
  obtain ⟨here, later⟩ := List.forall_mem_cons.1 all
  unfold phrase
  split
  next n p base close rest _ => exact (failsAt_access (later base (by simp))).map _
  next => exact failsAt_ok _
  next =>
    split
    next p base close rest _ => exact (failsAt_access (later base (by simp))).map _
    next => exact failsAt_ok _
    next => exact failsAt_ok _
    next => exact failsAt_ok _
    next => exact ParseError.failsAt here

theorem skipComma_suffix (tokens : List Placed) : skipComma tokens <:+ tokens := by
  unfold skipComma
  split
  · exact List.suffix_cons ..
  · exact List.suffix_refl _

theorem failsAt_readFrom {done : Array Operand} (all : ∀ u ∈ tokens, P u.span) :
    FailsAt P (readFrom done tokens) := by
  fun_induction readFrom done tokens with
  | case1 done => exact failsAt_ok done
  | case2 done t rest operand rest' read ih =>
    obtain ⟨covered, cut, -⟩ := phrase_eq_ok.1 read
    refine ih fun u member => all u ?_
    rw [cut]
    exact List.mem_append_right _ ((skipComma_suffix rest').subset member)
  | case3 done t rest e failed =>
    intro e' same
    cases same
    exact failsAt_phrase all e failed

theorem failsAt_ofTokens (all : ∀ u ∈ tokens, P u.span) : FailsAt P (ofTokens tokens) :=
  (failsAt_readFrom all).map _

theorem Splits.exists_extent {operands : List Operand} (h : Splits tokens operands)
    (member : o ∈ operands) :
    ∃ first others, first :: others <:+: tokens ∧ o.span = Statement.extent first others := by
  induction h with
  | nil => cases member
  | @cons covered separator rest o' operands reads _ _ _ ih =>
    rcases List.mem_cons.1 member with rfl | member
    · have start : covered <:+: covered ++ (separator ++ rest) := (List.prefix_append ..).isInfix
      cases reads with
      | access | base | integer | register | name | text => exact ⟨_, _, start, rfl⟩
    · obtain ⟨first, others, inside, place⟩ := ih member
      have behind : rest <:+: covered ++ (separator ++ rest) :=
        ((List.suffix_append separator rest).trans (List.suffix_append ..)).isInfix
      exact ⟨first, others, inside.trans behind, place⟩

end Operand

open Operand

theorem Instr.failsAt_ofOperands {m : Mnemonic} {span : Span} {operands : List Operand}
    (here : P span) (all : ∀ o ∈ operands, P o.span) :
    FailsAt P (Instr.ofOperands m span operands) := by
  unfold Instr.ofOperands
  split
  next op rd rs rt =>
    exact (failsAt_register (all rd (by simp))).bind fun _ _ =>
      (failsAt_register (all rs (by simp))).bind fun _ _ =>
        (failsAt_register (all rt (by simp))).bind fun _ _ => failsAt_ok _
  next op rd rt amount =>
    exact (failsAt_register (all rd (by simp))).bind fun _ _ =>
      (failsAt_register (all rt (by simp))).bind fun _ _ =>
        (failsAt_shiftAmount (all amount (by simp))).bind fun _ _ => failsAt_ok _
  next rs => exact (failsAt_register (all rs (by simp))).bind fun _ _ => failsAt_ok _
  next op rt rs value =>
    exact (failsAt_register (all rt (by simp))).bind fun _ _ =>
      (failsAt_register (all rs (by simp))).bind fun _ _ =>
        (failsAt_word (all value (by simp))).bind fun _ _ => failsAt_ok _
  next rt value =>
    exact (failsAt_register (all rt (by simp))).bind fun _ _ =>
      (failsAt_word (all value (by simp))).bind fun _ _ => failsAt_ok _
  next rd value =>
    exact (failsAt_register (all rd (by simp))).bind fun _ _ =>
      (failsAt_word (all value (by simp))).bind fun _ _ => failsAt_ok _
  next rd label =>
    exact (failsAt_register (all rd (by simp))).bind fun _ _ =>
      (failsAt_label (all label (by simp))).bind fun _ _ => failsAt_ok _
  next op rt address =>
    exact (failsAt_register (all rt (by simp))).bind fun _ _ =>
      (failsAt_address (all address (by simp))).bind fun _ _ => failsAt_ok _
  next op rs rt label =>
    exact (failsAt_register (all rs (by simp))).bind fun _ _ =>
      (failsAt_register (all rt (by simp))).bind fun _ _ =>
        (failsAt_label (all label (by simp))).bind fun _ _ => failsAt_ok _
  next op label => exact (failsAt_label (all label (by simp))).bind fun _ _ => failsAt_ok _
  next rd rs =>
    exact (failsAt_register (all rd (by simp))).bind fun _ _ =>
      (failsAt_register (all rs (by simp))).bind fun _ _ => failsAt_ok _
  next => exact failsAt_ok _
  next => exact ParseError.failsAt here

theorem Directive.failsAt_ofOperands {name : String} {nameSpan span : Span}
    {operands : List Operand} (named : P nameSpan) (here : P span)
    (all : ∀ o ∈ operands, P o.span) :
    FailsAt P (Directive.ofOperands name nameSpan span operands) := by
  unfold Directive.ofOperands
  dsimp only
  split
  next => exact failsAt_ok _
  next => exact ParseError.failsAt here
  next => exact failsAt_ok _
  next => exact ParseError.failsAt here
  next => exact ParseError.failsAt here
  next => exact (failsAt_mapM fun o member => failsAt_word (all o member)).map _
  next value _ => exact (failsAt_text (all value (by simp))).map _
  next => exact ParseError.failsAt here
  next label _ => exact (failsAt_label (all label (by simp))).map _
  next label _ => exact (failsAt_label (all label (by simp))).map _
  next => exact ParseError.failsAt here
  next => exact ParseError.failsAt here
  next => exact ParseError.failsAt named

namespace Statement

/-- Tokens next to each other stand where the property holds. -/
def ExtentsAt (P : Span → Prop) (tokens : List Placed) : Prop :=
  ∀ first others, first :: others <:+: tokens → P (extent first others)

variable {tokens others : List Placed}

theorem ExtentsAt.mono (extents : ExtentsAt P tokens) (inside : others <:+: tokens) :
    ExtentsAt P others :=
  fun first rest part => extents first rest (part.trans inside)

theorem ExtentsAt.token (extents : ExtentsAt P tokens) : ∀ t ∈ tokens, P t.span := by
  intro t member
  obtain ⟨before, after, rfl⟩ := List.append_of_mem member
  exact extents t [] ⟨before, after, by simp⟩

end Statement

open Statement

theorem Nucleus.failsAt_ofTokens {first : Placed} {others : List Placed}
    (extents : ExtentsAt P (first :: others)) :
    FailsAt P (Nucleus.ofTokens first others (extent first others)) := by
  have here : P (extent first others) := extents first others (List.infix_refl _)
  obtain ⟨begins, tokens⟩ := List.forall_mem_cons.1 extents.token
  have placed {operands : List Operand} (read : Operand.ofTokens others = .ok operands) :
      ∀ o ∈ operands, P o.span := by
    intro o member
    obtain ⟨t, rest, inside, place⟩ := (Operand.ofTokens_eq_ok.1 read).exists_extent member
    rw [place]
    exact extents t rest (inside.trans (List.suffix_cons first others).isInfix)
  unfold Nucleus.ofTokens
  split
  next name _ =>
    exact (Operand.failsAt_ofTokens tokens).bind fun operands read =>
      (Directive.failsAt_ofOperands begins here (placed read)).bind fun _ _ => failsAt_ok _
  next name _ =>
    split
    next => exact ParseError.failsAt begins
    next m _ =>
      exact (Operand.failsAt_ofTokens tokens).bind fun operands read =>
        (Instr.failsAt_ofOperands here (placed read)).bind fun _ _ => failsAt_ok _
  next => exact ParseError.failsAt begins

theorem Statement.Progress.failsAt_addLine {p : Progress} {line : List Placed}
    (extents : ExtentsAt P line) : FailsAt P (p.addLine line) := by
  obtain ⟨statements, waiting⟩ := p
  unfold addLine
  dsimp only
  split
  next => exact failsAt_ok _
  next labels first others cut =>
    obtain ⟨written, -, -, rfl, -⟩ := leadingLabels_eq_iff.1 cut
    have fails := Nucleus.failsAt_ofTokens (extents.mono (List.suffix_append written _).isInfix)
    rw [extent] at fails
    intro e failed
    split at failed
    next => cases failed
    next e' failed' =>
      cases failed
      exact fails e failed'

/-- The span covers a piece of one line of the text. -/
def Span.OnLine (text : List Char) (span : Span) : Prop :=
  ∃ piece, span.Holds 0 text piece ∧ '\n' ∉ piece

namespace Statement

theorem failsAt_significant {lexemes : List Lexeme}
    (errors : ∀ l ∈ lexemes, ∀ e, l.result = .error e → P l.span) :
    FailsAt P (significant lexemes) := by
  unfold significant
  refine failsAt_mapM fun l member => ?_
  have here := errors l (List.mem_filter.1 member).1
  split
  next => exact failsAt_ok _
  next e failed => exact ParseError.failsAt (here e failed)

theorem extentsAt_lines {text : List Char} {tokens line : List Placed}
    (lexes : Lexes 0 text tokens) (inside : line ∈ lines tokens) :
    ExtentsAt (Span.OnLine text) line := by
  intro first others part
  obtain ⟨piece, holds, alone⟩ := lexes.exists_piece (part.trans (infix_of_mem_lines inside))
  refine ⟨piece, holds, alone.newline_not_mem fun t member => ?_⟩
  exact ne_newline_of_mem_lines inside t (part.subset member)

/-- A source that cannot be parsed is at fault in a piece of one line. -/
theorem failsAt_parse (source : String) :
    FailsAt (Span.OnLine source.toList) (parse source) := by
  unfold parse
  refine FailsAt.bind (failsAt_significant fun l member e failed => ?_) fun tokens read => ?_
  · obtain ⟨piece, holds, -, level⟩ := (Lexeme.tiles_ofSource source).exists_piece l member
    refine ⟨piece, holds, fun newline => ?_⟩
    rw [level newline] at failed
    cases failed
  · have lexes := significant_ofSource_eq_ok.1 read
    refine FailsAt.bind (failsAt_foldlM (fun _ => True) ?_ ?_ trivial) fun _ _ => failsAt_ok _
    · exact fun line inside p _ => Progress.failsAt_addLine (extentsAt_lines lexes inside)
    · exact fun _ _ _ _ _ _ => trivial

end Statement

end Mips
