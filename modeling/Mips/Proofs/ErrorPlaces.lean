import Mips.Proofs.KeptTexts
import Mips.Proofs.ParseErrors
import Mips.Proofs.Positions
import Mips.Proofs.SourceLines

/-!
# Where errors of a source point

Errors of assembling point to statements, to labels, and to where these were defined or used before,
all of which the parser has found on one line each. An error of a source hence never points past a
line's end, and the line that it reports is the one on which its first place begins.
-/
namespace Mips

variable {ε α : Type} {P : Span → Prop}

namespace AssemblyError

theorem failsAt {span : Span} {cause : Cause} (here : P span) :
    FailsAt P (.error (.atSpan span cause) : Except AssemblyError α) := by
  intro e same
  cases same
  exact ⟨.one span, rfl, nofun, List.forall_mem_singleton.2 here⟩

theorem failsAt_two {first second : Span} {cause : Cause} (there : P first) (here : P second) :
    FailsAt P (.error ⟨cause, .two first second⟩ : Except AssemblyError α) := by
  intro e same
  cases same
  exact ⟨.two first second, rfl, nofun,
    List.forall_mem_cons.2 ⟨there, List.forall_mem_singleton.2 here⟩⟩

end AssemblyError

/-- The property holds where the statement, the labels that it defines and those that it uses
stand. -/
structure Statement.StandsAt (P : Span → Prop) (s : Statement) : Prop where
  nucleus : P s.span
  defined : ∀ l ∈ s.labels, P l.span
  used : ∀ l ∈ s.nucleus.labels, P l.span

namespace SymbolTable

variable {t t' : SymbolTable} {c : Cursor} {s : Statement} {state state' : SymbolTable × Cursor}

/-- The property holds where the labels of the table were first defined. -/
def StandsAt (P : Span → Prop) (t : SymbolTable) : Prop :=
  ∀ name symbol, t.find? name = some symbol → P (symbol.span name)

theorem standsAt_empty : StandsAt P empty := by
  intro name symbol found
  simp [find?, empty] at found

theorem StandsAt.define {label : Label} (stands : t.StandsAt P) (here : P label.span)
    (h : t.define c label = .ok t') : t'.StandsAt P := by
  intro name symbol found
  rcases find?_define h found with known | ⟨rfl, rfl⟩
  · exact stands name symbol known
  · exact here

theorem failsAt_define {label : Label} (stands : t.StandsAt P) (here : P label.span) :
    FailsAt P (t.define c label) := by
  unfold define
  split
  next symbol found =>
    split
    · exact failsAt_ok t
    · exact AssemblyError.failsAt_two (stands _ symbol found) here
  next => exact failsAt_ok _

theorem Cursor.failsAt_advance (here : P s.span) : FailsAt P (c.advance s) := by
  unfold advance layOut
  split
  next => exact failsAt_ok _
  next => exact failsAt_ok _
  next => exact failsAt_ok _
  next => exact failsAt_ok _
  next =>
    split
    · exact AssemblyError.failsAt here
    · split
      · exact failsAt_ok _
      · exact AssemblyError.failsAt here
  next =>
    split
    · exact failsAt_ok _
    · exact AssemblyError.failsAt here

theorem failsAt_addStatement (stands : state.1.StandsAt P) (here : s.StandsAt P) :
    FailsAt P (addStatement state s) := by
  obtain ⟨t, c⟩ := state
  refine FailsAt.bind (failsAt_foldlM (StandsAt P) ?_ ?_ stands) fun t' _ => ?_
  · exact fun label member x stands => failsAt_define stands (here.defined label member)
  · exact fun label member x y h stands => stands.define (here.defined label member) h
  · exact (Cursor.failsAt_advance here.nucleus).bind fun _ _ => failsAt_ok _

theorem StandsAt.addStatement (stands : state.1.StandsAt P) (here : s.StandsAt P)
    (h : addStatement state s = .ok state') : state'.1.StandsAt P := by
  intro name symbol found
  rcases find?_foldlM_define (addStatement_eq_ok.1 h).1 found with known | ⟨label, member, rfl, rfl⟩
  · exact stands name symbol known
  · exact here.defined label member

theorem failsAt_ofStatements {statements : List Statement}
    (all : ∀ s ∈ statements, s.StandsAt P) : FailsAt P (ofStatements statements) := by
  refine FailsAt.bind (failsAt_foldlM (fun state => state.1.StandsAt P) ?_ ?_ standsAt_empty)
    fun _ _ => failsAt_ok _
  · exact fun s member state stands => failsAt_addStatement stands (all s member)
  · exact fun s member state state' h stands => stands.addStatement (all s member) h

end SymbolTable

namespace Instr

variable {pc : Word} {symbols : SymbolTable}

theorem failsAt_resolve {label : Label} (here : P label.span) :
    FailsAt P (resolve label symbols) := by
  unfold resolve
  split
  · exact failsAt_ok _
  · exact AssemblyError.failsAt here

theorem failsAt_branchOffset {label : Label} (here : P label.span) :
    FailsAt P (branchOffset label pc symbols) := by
  unfold branchOffset
  split
  · exact failsAt_ok _
  · dsimp only
    split
    · exact failsAt_ok _
    · exact AssemblyError.failsAt here

theorem failsAt_expand {i : Instr} (used : ∀ l ∈ (Nucleus.instr i).labels, P l.span) :
    FailsAt P (i.expand pc symbols) := by
  cases i with
  | reg | shift | jr | imm | lui | jump | move | syscall => exact failsAt_ok _
  | li rd value =>
    rw [expand]
    split <;> exact failsAt_ok _
  | la rd label =>
    have here : P label.span := used label (.head _)
    exact (failsAt_resolve here).map _
  | mem op rt address =>
    cases address with
    | offset => exact failsAt_ok _
    | label label =>
      have here : P label.span := used label (.head _)
      exact (failsAt_resolve here).map _
  | branch op rs rt label =>
    have here : P label.span := used label (.head _)
    exact (failsAt_branchOffset here).map _

end Instr

namespace Program

namespace Layout

variable {l l' : Layout} {symbols : SymbolTable} {s : Statement}

theorem failsAt_addStatement (slots : ∀ slot ∈ l.slots, P slot.span) (here : s.StandsAt P) :
    FailsAt P (l.addStatement symbols s) := by
  obtain ⟨labels, nucleus, span⟩ := s
  cases nucleus with
  | empty => exact failsAt_ok _
  | directive d => cases d <;> exact failsAt_ok _
  | instr i =>
    change FailsAt P (l.addInstr symbols i span)
    unfold addInstr
    split
    · have expands : FailsAt P (i.expand l.pc symbols) := Instr.failsAt_expand here.used
      intro e failed
      split at failed
      · cases failed
      next e' failed' =>
        cases failed
        exact expands e failed'
    · split
      next earlier found =>
        exact AssemblyError.failsAt_two (slots earlier (Array.mem_of_getElem? found)) here.nucleus
      next => exact AssemblyError.failsAt here.nucleus

theorem standsAt_addStatement (h : l.addStatement symbols s = .ok l') (here : s.StandsAt P)
    (slots : ∀ slot ∈ l.slots, P slot.span) : ∀ slot ∈ l'.slots, P slot.span := by
  intro slot member
  have source : slot.source ∈ l'.slots.toList.map Slot.source :=
    List.mem_map_of_mem (Array.mem_toList_iff.2 member)
  rw [source_addStatement h] at source
  rcases List.mem_append.1 source with old | new
  · obtain ⟨earlier, inside, same⟩ := List.mem_map.1 old
    rw [show slot.span = earlier.span from (congrArg Prod.snd same).symm]
    exact slots earlier (Array.mem_toList_iff.1 inside)
  · obtain ⟨-, place⟩ := Statement.instr?_eq_some.1 (Option.mem_toList.1 new)
    exact place ▸ here.nucleus

end Layout

variable {statements : List Statement}

theorem failsAt_assemble {kept : Option String} (all : ∀ s ∈ statements, s.StandsAt P) :
    FailsAt P (assemble statements kept) := by
  refine (SymbolTable.failsAt_ofStatements all).bind fun symbols _ => ?_
  refine FailsAt.bind (failsAt_foldlM (fun l => ∀ slot ∈ l.slots, P slot.span) ?_ ?_ nofun)
    fun _ _ => failsAt_ok _
  · exact fun s member l slots => Layout.failsAt_addStatement slots (all s member)
  · exact fun s member l l' h slots => Layout.standsAt_addStatement h (all s member) slots

end Program

theorem Label.StandsIn.onLine {l : Label} {text : List Char} {tokens : List Placed}
    (stands : l.StandsIn tokens) (lexes : Lexes 0 text tokens) : l.span.OnLine text := by
  refine ⟨l.name.toList, stands.holds lexes, ?_⟩
  obtain ⟨span, member, -⟩ := stands
  obtain ⟨written, -, spelled⟩ := lexes.exists_spelled member
  rw [← spelled.eq_toList]
  exact spelled.newline_not_mem nofun

theorem Statement.StandsIn.standsAt {text : List Char} {tokens : List Placed} {s : Statement}
    (stands : s.StandsIn tokens (Text.byteLength text)) (lexes : Lexes 0 text tokens) :
    s.StandsAt (Span.OnLine text) := by
  have labels := fun l member => (stands.labels l member).onLine lexes
  obtain ⟨defined, used⟩ := List.forall_mem_append.1 labels
  refine ⟨?_, defined, used⟩
  cases stands with
  | line _ inside level =>
    obtain ⟨piece, holds, alone⟩ := lexes.exists_piece inside
    exact ⟨piece, holds, alone.newline_not_mem level⟩
  | trailing => exact ⟨[], ⟨text, [], by simp, by simp⟩, List.not_mem_nil⟩

namespace Program

variable {source : String} {e : SourceError}

theorem ofSource_eq_error : ofSource source = .error e ↔
    (∃ f, Statement.parse source = .error f ∧ e = .locate (.parsing f) source) ∨
      ∃ statements f, Statement.parse source = .ok statements ∧
        assemble statements (some source) = .error f ∧ e = .locate (.assembly f) source := by
  unfold ofSource
  cases Statement.parse source with
  | error f => simp [eq_comm]
  | ok statements =>
    cases failed : assemble statements (some source) with
    | error f => simp [failed, eq_comm]
    | ok p => simp [failed]

/-- The error was made for its first place, and all its places are on one line each. -/
theorem places_of_ofSource (failed : ofSource source = .error e) :
    e = .locate e.stage source ∧ e.stage.places.toList ≠ [] ∧
      ∀ span ∈ e.stage.places.toList, span.OnLine source.toList := by
  rcases ofSource_eq_error.1 failed with
    ⟨f, malformed, rfl⟩ | ⟨statements, f, parsed, unassembled, rfl⟩
  · obtain ⟨places, same, some, onLines⟩ := Statement.failsAt_parse source f malformed
    cases same
    exact ⟨rfl, some, onLines⟩
  · obtain ⟨tokens, lexes, stand⟩ := Statement.standsIn_of_parse parsed
    rw [← Text.byteLength_toList] at stand
    obtain ⟨places, same, some, onLines⟩ :=
      failsAt_assemble (fun s member => (stand s member).standsAt lexes) f unassembled
    cases same
    exact ⟨rfl, some, onLines⟩

/-- Every place of an error of a source is a piece of the source without a newline. The line of the
error is the one on which its first place begins, and is shown without white space at its ends. -/
theorem errors_point_into_lines (failed : ofSource source = .error e) :
    (∀ span ∈ e.stage.places.toList, ∃ text,
      Text.slice? source span.start span.stop = some text ∧ '\n' ∉ text.toList) ∧
    e.line < SourceText.lineCount source ∧ ∃ first before line after,
      e.stage.places.first? = some first ∧
        SourceText.LineAt source.toList e.line before line after ∧
          Text.byteLength before ≤ first.start ∧ first.start ≤ Text.byteLength (before ++ line) ∧
            Text.Trims line e.lineText.toList := by
  obtain ⟨located, some, onLines⟩ := places_of_ofSource failed
  obtain ⟨first, others, places⟩ := List.exists_cons_of_ne_nil some
  have begins : e.stage.places.first? = Option.some first := by rw [Places.first?, places]; rfl
  have line : e.line = SourceText.lineAt source first.start := by
    rw [located, SourceError.locate, begins]
    rfl
  have lineText : e.lineText = (SourceText.line? source e.line).getD "" := by
    rw [line, located, SourceError.locate, begins]
    rfl
  constructor
  · intro span member
    obtain ⟨piece, holds, level⟩ := onLines span member
    refine ⟨.ofList piece, ?_, by rwa [String.toList_ofList]⟩
    rw [← String.toList_ofList (l := piece)] at holds
    exact holds.slice?
  · obtain ⟨piece, ⟨front, back, whole, place⟩, -⟩ := onLines first (places ▸ List.mem_cons_self)
    have inside : first.start ≤ source.utf8ByteSize := by
      rw [← Text.byteLength_toList, whole, place, Text.byteLength_append, Nat.zero_add]
      exact Nat.le_add_right ..
    obtain ⟨within, before, text, after, shown, found, least, most, shows, trims⟩ :=
      SourceText.exists_lineAt inside
    rw [← line] at within found shows
    rw [shows] at lineText
    cases lineText
    exact ⟨within, first, before, text, after, begins, found, least, most, trims⟩

/-- A label of an instruction that is defined again for data, with letters of two bytes before it
and in it. -/
def redefined : String :=
  "# é\n\taπ: li $t0, 1 # é\n.data\naπ:\t.word 2"

def redefinedStatements : List Statement :=
  [⟨[⟨"aπ", 6⟩], .instr (.li ⟨8⟩ 1), ⟨11, 20⟩⟩, ⟨[], .directive .data, ⟨26, 31⟩⟩,
   ⟨[⟨"aπ", 32⟩], .directive (.word [2]), ⟨37, 44⟩⟩]

theorem errors_point_into_lines_redefined : ∃ e, ofSource redefined = .error e ∧
    e.stage.places = .two ⟨6, 9⟩ ⟨32, 35⟩ ∧ e.lineText = "aπ: li $t0, 1 # é" ∧
      (∃ text, Text.slice? redefined 32 35 = some text ∧ '\n' ∉ text.toList) ∧
        1 < SourceText.lineCount redefined ∧ ∃ before line after,
          SourceText.LineAt redefined.toList 1 before line after ∧ Text.byteLength before ≤ 6 ∧
            6 ≤ Text.byteLength (before ++ line) ∧ Text.Trims line "aπ: li $t0, 1 # é".toList := by
  have parsed : Statement.parse redefined = .ok redefinedStatements := by decide +kernel
  have unassembled : assemble redefinedStatements (some redefined) =
    .error ⟨.labelTwice, .two ⟨6, 9⟩ ⟨32, 35⟩⟩ := rfl
  obtain ⟨e, failed, located⟩ : ∃ e, ofSource redefined = .error e ∧
      e = .locate (.assembly ⟨.labelTwice, .two ⟨6, 9⟩ ⟨32, 35⟩⟩) redefined :=
    ⟨_, ofSource_eq_error.2 (.inr ⟨_, _, parsed, unassembled, rfl⟩), rfl⟩
  have places : e.stage.places = .two ⟨6, 9⟩ ⟨32, 35⟩ := by rw [located]; rfl
  have number : e.line = 1 := by
    rw [located]
    exact show SourceText.lineAt redefined 6 = 1 by decide +kernel
  have shown : e.lineText = "aπ: li $t0, 1 # é" := by
    rw [located]
    exact show (SourceText.line? redefined (SourceText.lineAt redefined 6)).getD "" = _ by
      decide +kernel
  obtain ⟨pieces, within, first, before, line, after, begins, found, least, most, trims⟩ :=
    errors_point_into_lines failed
  rw [places] at pieces begins
  cases begins
  rw [number] at within found
  rw [shown] at trims
  exact ⟨e, failed, places, shown, pieces ⟨32, 35⟩ (by decide), within,
    before, line, after, found, least, most, trims⟩

end Program

end Mips
