import Mips.Proofs.Pieces

/-!
# Lexemes tile their source

Reading a source cuts it into lexemes and single separators, one behind the other, so that nothing
of it is lost or read twice. A quoted text without a closing quote is the one lexeme whose end is
found in another way than by its characters, and it ends with its line as well.
-/
namespace Mips

namespace Reading

variable {c : Char} {rest : List Char}

/-- What is no token is on one line. -/
def Level (r : Reading) : Prop :=
  ∀ e, r.result = .error e → '\n' ∉ r.covered

theorem level_word {meaning : List Char → Except LexError Token} (other : c ≠ '\n') :
    (word c rest meaning).Level := by
  intro e _
  have tail : '\n' ∉ rest.takeWhile Text.isWordChar :=
    Text.newline_not_mem_word fun d => List.mem_takeWhile_imp
  simp [word, tail, other.symm]

theorem level_single {result : Except LexError Token} (other : c ≠ '\n') :
    (single c rest result).Level := by
  intro e _
  simpa [single] using other.symm

theorem level_quotedText : (quotedText rest).Level := by
  have line : '\n' ∉ rest.takeWhile (· != '\n') := fun member => by
    have := List.mem_takeWhile_imp member
    simp at this
  have covered : '\n' ∉ (splitLine rest).1 := by
    unfold splitLine
    dsimp only
    split
    · exact fun member => line (List.dropLast_subset _ member)
    · exact line
  unfold quotedText
  split
  next => nofun
  next =>
    intro e _
    simpa using covered

theorem level_first (c : Char) (rest : List Char) : (first c rest).Level := by
  unfold first
  split
  next => exact level_word (by decide)
  next => exact level_word (by decide)
  next => exact level_quotedText
  next => nofun
  next => nofun
  next => nofun
  next => nofun
  next => nofun
  next =>
    split
    next => nofun
    next => exact level_single (by decide)
  next => nofun
  next =>
    split
    next => exact level_word (by decide)
    next => exact level_single (by decide)
  next newline _ _ _ =>
    split
    next => exact level_word newline
    next =>
      split
      next => exact level_word newline
      next => exact level_single newline

theorem newline_of_covered {c : Char} {rest : List Char}
    (newline : '\n' ∈ (first c rest).covered) : (first c rest).result = .ok .newline := by
  cases read : (first c rest).result with
  | error e => exact absurd newline (level_first c rest e read)
  | ok t =>
    by_contra other
    exact (spelled_of_first read).1.newline_not_mem (fun same => other (same ▸ rfl)) newline

end Reading

/-- The text that begins at byte `start` consists of separators and of the lexemes, none of which is
empty. Only a newline token covers a newline. -/
inductive Tiles : (start : Nat) → List Char → List Lexeme → Prop
  | nil {start : Nat} : Tiles start [] []
  | gap {start : Nat} {c : Char} {text : List Char} {lexemes : List Lexeme} :
      Lexeme.isSeparator c = true → Tiles (start + c.utf8Size) text lexemes →
      Tiles start (c :: text) lexemes
  | piece {start : Nat} {covered text : List Char} {result : Except LexError Token}
      {lexemes : List Lexeme} : covered ≠ [] → ('\n' ∈ covered → result = .ok .newline) →
      Tiles (start + Text.byteLength covered) text lexemes →
      Tiles start (covered ++ text)
        (⟨⟨start, start + Text.byteLength covered⟩, result⟩ :: lexemes)

/-- The induction goes along the reading, one separator or lexeme at a time. -/
theorem Lexeme.tiles_readFrom (start : Nat) (done : Array Lexeme) (text : List Char) :
    ∃ lexemes, (readFrom start done text).toList = done.toList ++ lexemes ∧
      Tiles start text lexemes := by
  fun_induction readFrom start done text with
  | case1 start done => exact ⟨[], (List.append_nil _).symm, .nil⟩
  | case2 start done c rest separator ih =>
    obtain ⟨lexemes, read, tiles⟩ := ih
    exact ⟨lexemes, read, .gap separator tiles⟩
  | case3 start done c rest _ reading stop ih =>
    obtain ⟨lexemes, read, tiles⟩ := ih
    refine ⟨⟨⟨start, stop⟩, reading.result⟩ :: lexemes, ?_, ?_⟩
    · rw [read, Array.toList_push, List.append_assoc, List.singleton_append]
    · rw [← Reading.covered_append_rest c rest]
      exact .piece (Reading.covered_ne_nil c rest) Reading.newline_of_covered tiles

theorem Lexeme.tiles_ofSource (source : String) : Tiles 0 source.toList (ofSource source) := by
  obtain ⟨lexemes, read, tiles⟩ := tiles_readFrom 0 #[] source.toList
  rw [ofSource, read]
  exact tiles

namespace Tiles

variable {start : Nat} {text : List Char} {lexemes : List Lexeme}

/-- Each lexeme covers at least one character, so there are no more lexemes than characters. -/
theorem length_le (h : Tiles start text lexemes) : lexemes.length ≤ text.length := by
  induction h with
  | nil => exact Nat.le_refl 0
  | gap _ _ ih => exact Nat.le_succ_of_le ih
  | piece some _ _ ih =>
    have := List.length_pos_iff.2 some
    rw [List.length_cons, List.length_append]
    omega

theorem exists_piece (h : Tiles start text lexemes) : ∀ l ∈ lexemes, ∃ piece,
    l.span.Holds start text piece ∧ piece ≠ [] ∧ ('\n' ∈ piece → l.result = .ok .newline) := by
  induction h with
  | nil => nofun
  | @gap start c text lexemes _ _ ih =>
    intro l member
    obtain ⟨piece, holds, some, level⟩ := ih l member
    exact ⟨piece, holds.behind [c], some, level⟩
  | @piece start covered text result lexemes some level _ ih =>
    intro l member
    rcases List.mem_cons.1 member with rfl | member
    · exact ⟨covered, ⟨[], text, rfl, rfl⟩, some, level⟩
    · obtain ⟨piece, holds, some, level⟩ := ih l member
      exact ⟨piece, holds.behind covered, some, level⟩

theorem start_le (h : Tiles start text lexemes) : ∀ l ∈ lexemes, start ≤ l.span.start := by
  intro l member
  obtain ⟨piece, ⟨before, after, -, span⟩, -, -⟩ := h.exists_piece l member
  rw [span]
  exact Nat.le_add_right ..

theorem pairwise (h : Tiles start text lexemes) :
    lexemes.Pairwise fun a b => a.span.stop ≤ b.span.start := by
  induction h with
  | nil => exact .nil
  | gap _ _ ih => exact ih
  | piece _ _ others ih => exact .cons others.start_le ih

theorem exists_separator (h : Tiles start text lexemes) {i : Nat}
    (inside : i < Text.byteLength text)
    (outside : ∀ l ∈ lexemes, start + i < l.span.start ∨ l.span.stop ≤ start + i) :
    ∃ before c after, text = before ++ c :: after ∧ Text.byteLength before = i ∧
      Lexeme.isSeparator c = true := by
  induction h generalizing i with
  | nil => exact absurd inside (Nat.not_lt_zero i)
  | @gap start c text lexemes separator _ ih =>
    have single : c.utf8Size = 1 := by
      simp only [Lexeme.isSeparator, Bool.or_eq_true, beq_iff_eq] at separator
      rcases separator with rfl | rfl <;> rfl
    rw [Text.byteLength_cons, single] at inside
    cases i with
    | zero => exact ⟨[], c, text, rfl, rfl, separator⟩
    | succ i =>
      have later : start + (i + 1) = start + c.utf8Size + i := by omega
      rw [later] at outside
      obtain ⟨before, d, after, rfl, length, found⟩ := ih (by omega) outside
      refine ⟨c :: before, d, after, rfl, ?_, found⟩
      rw [Text.byteLength_cons, length, single, Nat.add_comm]
  | @piece start covered text result lexemes _ _ _ ih =>
    obtain ⟨first, others⟩ := List.forall_mem_cons.1 outside
    dsimp only at first
    obtain ⟨j, rfl⟩ : ∃ j, i = Text.byteLength covered + j :=
      Nat.exists_eq_add_of_le (by omega)
    rw [Text.byteLength_append] at inside
    rw [← Nat.add_assoc] at others
    obtain ⟨before, c, after, rfl, length, found⟩ := ih (by omega) others
    refine ⟨covered ++ before, c, after, (List.append_assoc ..).symm, ?_, found⟩
    rw [Text.byteLength_append, length]

end Tiles

theorem Text.byte_of_separator {source : String} {before after : List Char} {c : Char}
    (whole : source.toList = before ++ c :: after) (separator : Lexeme.isSeparator c = true)
    (inside : byteLength before < source.toByteArray.size) :
    source.toByteArray[byteLength before] = 0x20 ∨
      source.toByteArray[byteLength before] = 0x09 := by
  have bytes : source.toByteArray =
      before.utf8Encode ++ ([c].utf8Encode ++ after.utf8Encode) := by
    rw [← String.ofList_toList (s := source), whole, String.toByteArray_ofList,
      List.utf8Encode_append, List.utf8Encode_cons]
  have size : byteLength before = before.utf8Encode.size := by
    rw [byteLength_eq_utf8ByteSize, ← String.size_toByteArray, String.toByteArray_ofList]
  simp only [bytes, size]
  rw [ByteArray.getElem_append_right (Nat.le_refl _)]
  simp only [Nat.sub_self]
  simp only [Lexeme.isSeparator, Bool.or_eq_true, beq_iff_eq] at separator
  rcases separator with rfl | rfl
  · rw [ByteArray.getElem_append_left (by decide)]
    exact .inl (by decide)
  · rw [ByteArray.getElem_append_left (by decide)]
    exact .inr (by decide)

namespace Lexeme

/-- The lexemes of a source are pieces of it that are not empty and stand in order, one behind the
other, and between them are only spaces and tabs. No lexeme goes on over a newline. -/
theorem ofSource_tiles (source : String) :
    (ofSource source).length ≤ source.length ∧
    (∀ l ∈ ofSource source, l.span.start < l.span.stop ∧ ∃ text,
      Text.slice? source l.span.start l.span.stop = some text ∧
        ('\n' ∈ text.toList → l.result = .ok .newline)) ∧
    (ofSource source).Pairwise (fun a b => a.span.stop ≤ b.span.start) ∧
    ∀ i (inside : i < source.toByteArray.size),
      (∀ l ∈ ofSource source, i < l.span.start ∨ l.span.stop ≤ i) →
        source.toByteArray[i] = 0x20 ∨ source.toByteArray[i] = 0x09 := by
  have tiles := tiles_ofSource source
  refine ⟨?_, ?_, tiles.pairwise, ?_⟩
  · rw [← String.length_toList]
    exact tiles.length_le
  · intro l member
    obtain ⟨piece, holds, some, level⟩ := tiles.exists_piece l member
    constructor
    · obtain ⟨before, after, -, span⟩ := holds
      have := Text.length_le_byteLength piece
      have := List.length_pos_iff.2 some
      rw [span]
      dsimp only
      omega
    · rw [← String.toList_ofList (l := piece)] at holds level
      exact ⟨.ofList piece, holds.slice?, level⟩
  · intro i inside outside
    have within : i < Text.byteLength source.toList := by
      rwa [Text.byteLength_toList, ← String.size_toByteArray]
    rw [← Nat.zero_add i] at outside
    obtain ⟨before, c, after, whole, rfl, separator⟩ := tiles.exists_separator within outside
    exact Text.byte_of_separator whole separator inside

/-- A character that begins no token, and a quoted text without a closing quote in front of a
carriage return and a newline. -/
def unclosed : String :=
  "é \"a\r\n"

theorem ofSource_tiles_unclosed : ∃ quoted ∈ ofSource unclosed,
    quoted.span = ⟨3, 5⟩ ∧ quoted.result = .error .unclosedText ∧
      (∃ text, Text.slice? unclosed 3 5 = some text ∧ '\n' ∉ text.toList) ∧
      ∃ inside : 2 < unclosed.toByteArray.size,
        unclosed.toByteArray[2] = 0x20 ∨ unclosed.toByteArray[2] = 0x09 := by
  have read : ∃ quoted ∈ ofSource unclosed,
      quoted.span = ⟨3, 5⟩ ∧ quoted.result = .error .unclosedText := by decide +kernel
  have between : ∀ l ∈ ofSource unclosed, 2 < l.span.start ∨ l.span.stop ≤ 2 := by decide +kernel
  obtain ⟨-, pieces, -, gaps⟩ := ofSource_tiles unclosed
  obtain ⟨quoted, member, span, unread⟩ := read
  obtain ⟨-, text, found, newline⟩ := pieces _ member
  rw [span] at found
  rw [unread] at newline
  exact ⟨quoted, member, span, unread, ⟨text, found, fun covered => nomatch newline covered⟩,
    by decide, gaps 2 (by decide) between⟩

end Lexeme

end Mips
