import Mathlib.Algebra.GroupWithZero.Nat
import Mathlib.Data.Prod.Lex
import Mathlib.Order.Interval.Set.Defs
import Mips.Proofs.Pieces
import Mips.Proofs.SourceLines

/-!
# Line numbers and columns

The lines of a source are the pieces between its newlines. The text and the place of a line are
those of its piece without the blanks at the ends. A position is given by its line and by how far it
is behind the beginning of this line, with no newline in between, so that positions and these pairs
are in the same order.
-/
namespace Mips.SourceText

/-- The pieces of a source between its newlines. -/
def pieces (source : String) : List (List Char) :=
  source.toList.splitOn '\n'

/-- The byte at which the piece with the given number begins, behind the pieces before it and their
newlines. -/
def pieceStart (source : String) (number : Nat) : Nat :=
  (((pieces source).take number).map fun piece => Text.byteLength piece + 1).sum

/-- The text and the place of a line are those of a piece: the text is the piece without blanks at
its ends, and the place is within the piece and holds just this text. -/
structure Shows (source : String) (number : Nat) (piece : List Char) (text : String)
    (place : Span) : Prop where
  line : line? source number = some text
  span : lineSpan? source number = some place
  trims : Text.Trims piece text.toList
  holds : Text.slice? source place.start place.stop = some text
  start_le : pieceStart source number ≤ place.start
  le_stop : place.stop ≤ pieceStart source number + Text.byteLength piece

/-- The position is on the line, as many bytes behind its beginning as the column says, and no
newline stands between them. -/
structure IsAt (source : String) (position : Nat) (line column : Nat) : Prop where
  line_lt : line < lineCount source
  behind : pieceStart source line + column = position
  level : ∀ before after, source.toList = before ++ '\n' :: after →
    pieceStart source line ≤ Text.byteLength before → position ≤ Text.byteLength before

variable {source : String} {position number : Nat} {piece : List Char}

theorem Cuts.map_text {start : Nat} {text : List Char} {ls : List Line}
    (cuts : Cuts start text ls) : ls.map Line.text = text.splitOn '\n' := by
  induction cuts with
  | last level => exact (List.splitOn_eq_singleton level).symm
  | cons level _ ih =>
    rw [List.splitOn_append_cons_self_of_not_mem level, List.map_cons, ih]

theorem Cuts.start_eq {start : Nat} {text : List Char} {ls : List Line}
    (cuts : Cuts start text ls) {l : Line} (found : ls[number]? = some l) :
    l.start = start + ((ls.take number).map fun l => Text.byteLength l.text + 1).sum := by
  induction cuts generalizing number with
  | last =>
    cases number with
    | zero =>
      cases found
      rfl
    | succ => cases found
  | cons level _ ih =>
    cases number with
    | zero =>
      cases found
      rfl
    | succ number =>
      rw [ih found, List.take_succ_cons, List.map_cons, List.sum_cons]
      dsimp only
      omega

theorem getElem?_lines (source : String) (number : Nat) : (lines source)[number]? =
    (pieces source)[number]?.map fun piece => ⟨pieceStart source number, piece⟩ := by
  have cuts := cuts_lines source
  rw [pieces, ← cuts.map_text, ← Array.getElem?_toList, List.getElem?_map, Option.map_map]
  cases found : (lines source).toList[number]? with
  | none => rfl
  | some l =>
    have start := cuts.start_eq found
    rw [pieceStart, pieces, ← cuts.map_text, ← List.map_take, List.map_map]
    rw [Nat.zero_add] at start
    exact congrArg some (congrArg (Line.mk · l.text) start)

theorem length_pieces (source : String) : (pieces source).length = lineCount source := by
  rw [pieces, ← (cuts_lines source).map_text, List.length_map, Array.length_toList, lineCount]

theorem holds_trimmedSpan (l : Line) : ∃ before after, l.text = before ++ (l.trimmed ++ after) ∧
    l.trimmedSpan = ⟨l.start + Text.byteLength before,
      l.start + Text.byteLength before + Text.byteLength l.trimmed⟩ := by
  obtain ⟨trail, cut, -⟩ := l.exists_trail
  unfold Line.trimmedSpan
  split
  next none => exact ⟨[], l.text, by rw [none]; rfl, by rw [none]; rfl⟩
  next => exact ⟨l.indentation, trail, cut, rfl⟩

theorem Cuts.exists_around {start : Nat} {text : List Char} {ls : List Line}
    (cuts : Cuts start text ls) {l : Line} (found : ls[number]? = some l) :
    ∃ before after, text = before ++ (l.text ++ after) ∧
      l.start = start + Text.byteLength before := by
  induction cuts generalizing number with
  | @last start line =>
    cases number with
    | zero =>
      cases found
      exact ⟨[], [], (List.append_nil line).symm, rfl⟩
    | succ => cases found
  | @cons start line rest _ _ _ ih =>
    cases number with
    | zero =>
      cases found
      exact ⟨[], '\n' :: rest, rfl, rfl⟩
    | succ number =>
      obtain ⟨before, after, rfl, begins⟩ := ih found
      refine ⟨line ++ '\n' :: before, after, by simp, ?_⟩
      rw [begins, Text.byteLength_append, Text.byteLength_cons, Nat.add_assoc, Nat.add_assoc]
      rfl

theorem exists_shows (found : (pieces source)[number]? = some piece) :
    ∃ text place, Shows source number piece text place := by
  let l : Line := ⟨pieceStart source number, piece⟩
  have get : (lines source)[number]? = some l := by rw [getElem?_lines, found, Option.map_some]
  obtain ⟨before, after, whole, begins⟩ :=
    (cuts_lines source).exists_around (Array.getElem?_toList ▸ get)
  obtain ⟨lead, trail, cut, place⟩ := holds_trimmedSpan l
  have inside : Text.byteLength piece =
      Text.byteLength lead + (Text.byteLength l.trimmed + Text.byteLength trail) := by
    rw [← Text.byteLength_append, ← Text.byteLength_append, ← cut]
  have holds : l.trimmedSpan.Holds 0 source.toList (String.ofList l.trimmed).toList := by
    rw [String.toList_ofList, whole, cut, place, begins, Nat.zero_add, ← Text.byteLength_append]
    exact ⟨before ++ lead, trail ++ after, by simp, by rw [Nat.zero_add]⟩
  refine ⟨.ofList l.trimmed, l.trimmedSpan, ?_, ?_, ?_, holds.slice?, ?_, ?_⟩
  · rw [line?, get, Option.map_some]
  · rw [lineSpan?, get, Option.map_some]
  · rw [String.toList_ofList]
    exact l.trims_trimmed
  · rw [place]
    exact Nat.le_add_right ..
  · rw [place, inside]
    dsimp only [l]
    omega

theorem pieceStart_succ (found : (pieces source)[number]? = some piece) :
    pieceStart source (number + 1) = pieceStart source number + Text.byteLength piece + 1 := by
  rw [pieceStart, List.take_add_one, found, List.map_append, List.sum_append]
  rfl

theorem lineAndColumn_eq {line : Nat} (here : lineAt source position = line)
    (inside : line < lineCount source) :
    lineAndColumn source position = (line, position - pieceStart source line) := by
  unfold lineAndColumn
  rw [here]
  cases line with
  | zero => rfl
  | succ before =>
    obtain ⟨piece, found⟩ : ∃ piece, (pieces source)[before]? = some piece := by
      rw [← length_pieces] at inside
      exact ⟨_, List.getElem?_eq_getElem (Nat.lt_of_succ_lt inside)⟩
    have get := getElem?_lines source before
    rw [found, Option.map_some] at get
    dsimp only
    rw [pieceStart_succ found, get]
    rfl

/-- A newline that does not stand before a line stands at its end or behind it. -/
theorem LineAt.le_of_newline {text before line after front back : List Char}
    (there : LineAt text number before line after) (newline : text = front ++ '\n' :: back)
    (behind : Text.byteLength before ≤ Text.byteLength front) :
    Text.byteLength (before ++ line) ≤ Text.byteLength front := by
  have whole : (before ++ line) ++ after = front ++ '\n' :: back := by
    rw [List.append_assoc, ← there.whole, newline]
  rcases List.append_eq_append_iff.1 whole with ⟨rest, rfl, -⟩ | ⟨rest, cut, after⟩
  · rw [Text.byteLength_append _ rest]
    exact Nat.le_add_right ..
  · cases rest with
    | nil => rw [cut, List.append_nil]
    | cons c rest =>
      obtain rfl : '\n' = c := (List.cons.inj after).1
      rcases List.append_eq_append_iff.1 cut with ⟨gap, rfl, same⟩ | ⟨gap, rfl, same⟩
      · have member : '\n' ∈ line := by
          rw [same]
          exact List.mem_append_right _ List.mem_cons_self
        exact absurd member there.level
      · cases gap with
        | nil =>
          have member : '\n' ∈ line := by
            rw [List.nil_append] at same
            rw [← same]
            exact List.mem_cons_self
          exact absurd member there.level
        | cons d gap =>
          have := d.utf8Size_pos
          rw [Text.byteLength_append, Text.byteLength_cons] at behind
          omega

theorem isAt_lineAndColumn (inside : position ≤ source.utf8ByteSize) :
    IsAt source position (lineAndColumn source position).1 (lineAndColumn source position).2 := by
  rw [← Text.byteLength_toList, ← Nat.zero_add (Text.byteLength _)] at inside
  obtain ⟨before, line, after, found, get, least, most⟩ :=
    (cuts_lines source).exists_line (Nat.zero_le _) inside
  rw [Array.countP_toList] at found
  change LineAt source.toList (lineAt source position) before line after at found
  rw [Array.getElem?_toList, found.counted, getElem?_lines, Option.map_eq_some_iff] at get
  obtain ⟨piece, here, same⟩ := get
  obtain ⟨begins, rfl⟩ := Line.mk.inj same
  simp only [Nat.zero_add] at begins least most
  have lt : lineAt source position < lineCount source := by
    rw [← length_pieces]
    exact (List.getElem?_eq_some_iff.1 here).1
  rw [lineAndColumn_eq rfl lt]
  refine ⟨lt, ?_, fun front back newline behind => ?_⟩
  · rw [begins]
    exact Nat.add_sub_cancel' least
  · rw [begins] at behind
    have end_le := found.le_of_newline newline behind
    rw [Text.byteLength_append] at end_le
    exact Nat.le_trans most end_le

/-- A later position is on a later line, or behind on the same one. -/
theorem strictMonoOn_lineAndColumn (source : String) : StrictMonoOn
    (fun position => toLex (lineAndColumn source position)) (Set.Iic source.utf8ByteSize) := by
  intro earlier first later second lt
  rw [Prod.Lex.toLex_lt_toLex']
  refine ⟨lineAt_mono source lt.le, fun same => ?_⟩
  have behind := (isAt_lineAndColumn first).behind
  have behind' := (isAt_lineAndColumn second).behind
  rw [← same] at behind'
  omega

theorem injOn_lineAndColumn (source : String) :
    Set.InjOn (lineAndColumn source) (Set.Iic source.utf8ByteSize) := by
  intro earlier first later second same
  exact (strictMonoOn_lineAndColumn source).injOn first second (congrArg toLex same)

theorem line?_eq_none : line? source number = none ↔ lineCount source ≤ number := by
  rw [line?, Option.map_eq_none_iff, Array.getElem?_eq_none_iff, lineCount]

theorem lineSpan?_eq_none : lineSpan? source number = none ↔ lineCount source ≤ number := by
  rw [lineSpan?, Option.map_eq_none_iff, Array.getElem?_eq_none_iff, lineCount]

/-- A source has the pieces between its newlines as lines, each of them shown without the blanks at
its ends. Every position of the source, its end included, is told by its line and its column, no two
of them by the same ones, and later positions by later ones. -/
theorem lines_are_pieces (source : String) :
    lineCount source = source.toList.count '\n' + 1 ∧ (pieces source).length = lineCount source ∧
    (∀ number, (line? source number = none ↔ lineCount source ≤ number) ∧
      (lineSpan? source number = none ↔ lineCount source ≤ number)) ∧
    (∀ number piece, (pieces source)[number]? = some piece →
      ∃ text place, Shows source number piece text place) ∧
    (∀ position ≤ source.utf8ByteSize,
      IsAt source position (lineAndColumn source position).1 (lineAndColumn source position).2) ∧
    Set.InjOn (lineAndColumn source) (Set.Iic source.utf8ByteSize) ∧
    StrictMonoOn (fun position => toLex (lineAndColumn source position))
      (Set.Iic source.utf8ByteSize) :=
  ⟨lineCount_eq source, length_pieces source, fun _ => ⟨line?_eq_none, lineSpan?_eq_none⟩,
    fun _ _ => exists_shows, fun _ => isAt_lineAndColumn, injOn_lineAndColumn source,
    strictMonoOn_lineAndColumn source⟩

/-- A line with blanks of one and of three bytes around a letter of two, and two empty lines. -/
def spaced : String :=
  "a\n \tπ\u2003\n\n"

theorem lines_are_pieces_spaced : (pieces spaced)[1]? = some " \tπ\u2003".toList ∧
    Shows spaced 1 " \tπ\u2003".toList "π" ⟨4, 6⟩ ∧ 5 ≤ spaced.utf8ByteSize ∧
      IsAt spaced 5 1 3 ∧ 11 ≤ spaced.utf8ByteSize ∧ IsAt spaced 11 3 0 := by
  obtain ⟨-, -, -, shows, isAt, -⟩ := lines_are_pieces spaced
  have found : (pieces spaced)[1]? = some " \tπ\u2003".toList := by decide +kernel
  have within : 5 ≤ spaced.utf8ByteSize := by decide +kernel
  have least : 11 ≤ spaced.utf8ByteSize := by decide +kernel
  obtain ⟨text, place, shown⟩ := shows 1 _ found
  have text' : line? spaced 1 = some "π" := by decide +kernel
  have place' : lineSpan? spaced 1 = some ⟨4, 6⟩ := by decide +kernel
  cases text'.symm.trans shown.line
  cases place'.symm.trans shown.span
  have inside := isAt 5 within
  have last := isAt 11 least
  rw [show lineAndColumn spaced 5 = (1, 3) by decide +kernel] at inside
  rw [show lineAndColumn spaced 11 = (3, 0) by decide +kernel] at last
  exact ⟨found, shown, within, inside, least, last⟩

end Mips.SourceText
