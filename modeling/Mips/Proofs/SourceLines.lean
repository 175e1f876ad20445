import Mathlib.Data.List.TakeWhile
import Mips.SourceText

/-!
# Lines of a source text

A source is cut at its newlines, and a line has the number of the newlines before it. A position of
the source is on the line between whose first byte and whose end it lies, the end included.
-/
namespace Mips

theorem Text.byteLength_reverse (text : List Char) :
    byteLength text.reverse = byteLength text := by
  induction text with
  | nil => rfl
  | cons c text ih =>
    rw [List.reverse_cons, byteLength_append, ih, Nat.add_comm]
    rfl

/-- The second text is the first one without the blanks at its ends. -/
structure Text.Trims (text trimmed : List Char) : Prop where
  cut : ∃ lead trail, text = lead ++ (trimmed ++ trail) ∧ ∀ c ∈ lead ++ trail, isBlank c = true
  first : ∀ c, trimmed.head? = some c → isBlank c = false
  last : ∀ c, trimmed.getLast? = some c → isBlank c = false

/-- The blanks that a line begins with stand before what is left of it, and blanks stand behind. -/
theorem Line.exists_trail (l : Line) : ∃ trail, l.text = l.indentation ++ (l.trimmed ++ trail) ∧
    ∀ c ∈ trail, Text.isBlank c = true := by
  obtain ⟨start, text⟩ := l
  let rest := text.dropWhile Text.isBlank
  have lead : text = text.takeWhile Text.isBlank ++ rest :=
    List.takeWhile_append_dropWhile.symm
  have trail : rest = trimmed ⟨start, text⟩ ++ (rest.reverse.takeWhile Text.isBlank).reverse := by
    rw [trimmed, ← List.reverse_append, List.takeWhile_append_dropWhile, List.reverse_reverse]
  refine ⟨_, by rw [← trail]; exact lead, fun c member => ?_⟩
  exact List.mem_takeWhile_imp (List.mem_reverse.1 member)

theorem Line.trims_trimmed (l : Line) : Text.Trims l.text l.trimmed := by
  obtain ⟨trail, cut, blank⟩ := l.exists_trail
  have notBlank (list : List Char) (c : Char)
      (head : (list.dropWhile Text.isBlank).head? = some c) : Text.isBlank c = false := by
    have := List.head?_dropWhile_not Text.isBlank list
    rw [head] at this
    exact this
  constructor
  case cut =>
    refine ⟨_, _, cut, List.forall_mem_append.2 ⟨?_, blank⟩⟩
    exact fun c => List.mem_takeWhile_imp
  case first =>
    intro c head
    refine notBlank l.text c ?_
    have rest : l.text.dropWhile Text.isBlank = l.trimmed ++ trail := by
      rw [indentation] at cut
      exact List.append_cancel_left (List.takeWhile_append_dropWhile.trans cut)
    rw [rest, List.head?_append, head]
    rfl
  case last =>
    intro c last
    rw [trimmed, List.getLast?_reverse] at last
    exact notBlank _ c last

namespace SourceText

/-- The text, which begins at byte `start` of the source, consists of the lines, with a newline
behind each but the last. -/
inductive Cuts : (start : Nat) → List Char → List Line → Prop
  | last {start : Nat} {line : List Char} : '\n' ∉ line → Cuts start line [⟨start, line⟩]
  | cons {start : Nat} {line rest : List Char} {lines : List Line} : '\n' ∉ line →
      Cuts (start + Text.byteLength line + 1) rest lines →
      Cuts start (line ++ '\n' :: rest) (⟨start, line⟩ :: lines)

/-- A line of the text, with its number and with what stands before and behind it. -/
structure LineAt (text : List Char) (number : Nat) (before line after : List Char) : Prop where
  whole : text = before ++ (line ++ after)
  counted : before.count '\n' = number
  level : '\n' ∉ line
  begins : before = [] ∨ before.getLast? = some '\n'
  ends : after = [] ∨ after.head? = some '\n'

/-- The same line of a text that stands behind another line. -/
theorem LineAt.behind {text before found after line : List Char} {number : Nat}
    (there : LineAt text number before found after) (level : '\n' ∉ line) :
    LineAt (line ++ '\n' :: text) (number + 1) (line ++ '\n' :: before) found after where
  whole := by simp [there.whole]
  counted := by simp [List.count_eq_zero.2 level, there.counted]
  level := there.level
  begins := by
    rcases there.begins with rfl | last
    · simp
    · simp [List.getLast?_append, List.getLast?_cons, last]
  ends := there.ends

theorem exists_cuts_linesFrom (done : Array Line) (start : Nat) {line : List Char}
    (text : List Char) (level : '\n' ∉ line) : ∃ ls, Cuts start (line.reverse ++ text) ls ∧
      (linesFrom done start line text).toList = done.toList ++ ls := by
  induction text generalizing done start line with
  | nil =>
    refine ⟨[⟨start, line.reverse⟩], ?_, by simp [linesFrom]⟩
    rw [List.append_nil]
    exact .last (by simpa using level)
  | cons c text ih =>
    by_cases newline : c = '\n'
    · subst newline
      obtain ⟨ls, cuts, same⟩ := ih (done.push ⟨start, line.reverse⟩)
        (start + Text.byteLength line + 1) List.not_mem_nil
      rw [← Text.byteLength_reverse line] at cuts
      refine ⟨⟨start, line.reverse⟩ :: ls, .cons (by simpa using level) cuts, ?_⟩
      rw [linesFrom, if_pos rfl, same]
      simp
    · have level' : '\n' ∉ c :: line := by simp [level, Ne.symm newline]
      obtain ⟨ls, cuts, same⟩ := ih done start level'
      refine ⟨ls, ?_, ?_⟩
      · simpa using cuts
      · rw [linesFrom, if_neg newline, same]

theorem cuts_lines (source : String) : Cuts 0 source.toList (lines source).toList := by
  obtain ⟨ls, cuts, same⟩ := exists_cuts_linesFrom #[] 0 source.toList List.not_mem_nil
  rw [lines, same]
  exact cuts

namespace Cuts

variable {start position : Nat} {text : List Char} {ls : List Line}

theorem start_le (cuts : Cuts start text ls) : ∀ l ∈ ls, start ≤ l.start := by
  induction cuts with
  | last => exact List.forall_mem_singleton.2 (Nat.le_refl _)
  | cons _ _ ih =>
    refine List.forall_mem_cons.2 ⟨Nat.le_refl _, fun l member => ?_⟩
    exact Nat.le_trans (by omega) (ih l member)

theorem countP_stop_lt (cuts : Cuts start text ls) (before : position ≤ start) :
    ls.countP (fun l => l.stop < position) = 0 := by
  rw [List.countP_eq_zero]
  intro l member
  have behind : start ≤ l.start := cuts.start_le l member
  have : l.start ≤ l.stop := Nat.le_add_right ..
  simp only [decide_eq_true_eq]
  omega

theorem length_eq (cuts : Cuts start text ls) : ls.length = text.count '\n' + 1 := by
  induction cuts with
  | last level => simp [List.count_eq_zero.2 level]
  | cons level _ ih => simp [List.count_eq_zero.2 level, ih]

/-- Every position of the text lies on a line, whose number is how many lines end before it. -/
theorem exists_line (cuts : Cuts start text ls) (least : start ≤ position)
    (most : position ≤ start + Text.byteLength text) : ∃ before line after,
      LineAt text (ls.countP fun l => l.stop < position) before line after ∧
        ls[before.count '\n']? = some ⟨start + Text.byteLength before, line⟩ ∧
          start + Text.byteLength before ≤ position ∧
            position ≤ start + Text.byteLength before + Text.byteLength line := by
  induction cuts with
  | @last start line level =>
    have none : ¬Line.stop ⟨start, line⟩ < position := Nat.not_lt.2 most
    refine ⟨[], line, [], ⟨by simp, ?_, level, .inl rfl, .inl rfl⟩, rfl, least, most⟩
    simp [none]
  | @cons start line rest ls level cuts ih =>
    by_cases here : position ≤ start + Text.byteLength line
    · have none : ¬Line.stop ⟨start, line⟩ < position := Nat.not_lt.2 here
      have later : ls.countP (fun l => l.stop < position) = 0 :=
        cuts.countP_stop_lt (Nat.le_succ_of_le here)
      refine ⟨[], line, '\n' :: rest, ⟨rfl, ?_, level, .inl rfl, .inr rfl⟩, rfl, least, here⟩
      simp [none, later]
    · have first : Line.stop ⟨start, line⟩ < position := Nat.lt_of_not_le here
      have newline : Text.byteLength (line ++ '\n' :: rest) =
          Text.byteLength line + (1 + Text.byteLength rest) := Text.byteLength_append ..
      obtain ⟨before, found, after, there, get, least, most⟩ := ih (by omega) (by omega)
      have bytes : start + Text.byteLength (line ++ '\n' :: before) =
          start + Text.byteLength line + 1 + Text.byteLength before := by
        have : Text.byteLength (line ++ '\n' :: before) =
          Text.byteLength line + (1 + Text.byteLength before) := Text.byteLength_append ..
        omega
      have count : (line ++ '\n' :: before).count '\n' = before.count '\n' + 1 := by
        simp [List.count_eq_zero.2 level]
      refine ⟨line ++ '\n' :: before, found, after, ?_, ?_, ?_, ?_⟩
      · rw [List.countP_cons_of_pos (by simpa using first)]
        exact there.behind level
      · rw [count, bytes]
        exact get
      · rw [bytes]
        exact least
      · rw [bytes]
        exact most

end Cuts

theorem lineCount_eq (source : String) : lineCount source = source.toList.count '\n' + 1 := by
  rw [lineCount, ← Array.length_toList, (cuts_lines source).length_eq]

theorem lineAt_mono (source : String) {a b : Nat} (before : a ≤ b) :
    lineAt source a ≤ lineAt source b := by
  unfold lineAt
  rw [← Array.countP_toList, ← Array.countP_toList]
  exact List.countP_mono_left fun l _ ends => by
    simp only [decide_eq_true_eq] at ends ⊢
    omega

/-- A position of a source is on the line that is found for it, which is shown trimmed. -/
theorem exists_lineAt {source : String} {position : Nat} (inside : position ≤ source.utf8ByteSize) :
    lineAt source position < lineCount source ∧ ∃ before line after text,
      LineAt source.toList (lineAt source position) before line after ∧
        Text.byteLength before ≤ position ∧ position ≤ Text.byteLength (before ++ line) ∧
          line? source (lineAt source position) = some text ∧ Text.Trims line text.toList := by
  rw [← Text.byteLength_toList, ← Nat.zero_add (Text.byteLength _)] at inside
  obtain ⟨before, line, after, found, get, least, most⟩ :=
    (cuts_lines source).exists_line (Nat.zero_le _) inside
  rw [Array.countP_toList] at found
  change LineAt source.toList (lineAt source position) before line after at found
  rw [Array.getElem?_toList, found.counted] at get
  simp only [Nat.zero_add] at get least most
  let l : Line := ⟨Text.byteLength before, line⟩
  have trims : Text.Trims line (String.ofList l.trimmed).toList := by
    rw [String.toList_ofList]
    exact l.trims_trimmed
  refine ⟨(Array.getElem?_eq_some_iff.1 get).1, before, line, after, .ofList l.trimmed, found,
    least, ?_, ?_, trims⟩
  · rw [Text.byteLength_append]
    exact most
  · rw [line?, get, Option.map_some]

end SourceText

end Mips
