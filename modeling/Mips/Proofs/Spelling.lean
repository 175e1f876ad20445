import Mathlib.Data.List.TakeWhile
import Mips.Proofs.Folds
import Mips.Token.Lexer

/-!
# Spellings

What a token may look like and how far it extends, said without reading. What is read at the start
of a text is a token just if the text begins with one of its spellings and does not go on with it.
-/
namespace Mips

namespace Text

/-- The characters after an opening quote with the closing one, and the text they stand for. -/
inductive Quotes : List Char → List Char → Prop
  | close : Quotes ['"'] []
  | escape {d : Char} {body value : List Char} : d ≠ '\n' → Quotes body value →
      Quotes ('\\' :: d :: body) (unescape d ++ value)
  | plain {c : Char} {body value : List Char} : c ≠ '\n' → c ≠ '"' → c ≠ '\\' → Quotes body value →
      Quotes (c :: body) (c :: value)

theorem readLiteralFrom_of_quotes {body value : List Char} (quotes : Quotes body value)
    (written before rest : List Char) : readLiteralFrom written before (body ++ rest) =
      some ⟨written.reverse ++ body, before.reverse ++ value, rest⟩ := by
  induction quotes generalizing written before with
  | close =>
    rw [List.cons_append, readLiteralFrom.eq_def]
    simp
  | escape notNewline _ ih =>
    rw [List.cons_append, readLiteralFrom.eq_def]
    simp [notNewline, ih]
  | plain notNewline notQuote notEscape _ ih =>
    rw [List.cons_append, readLiteralFrom.eq_def]
    simp [notNewline, notQuote, notEscape, ih]

theorem quotes_of_readLiteralFrom {written before text : List Char} {l : Literal}
    (h : readLiteralFrom written before text = some l) : ∃ body value, Quotes body value ∧
      text = body ++ l.rest ∧ l.written = written.reverse ++ body ∧
        l.value = before.reverse ++ value := by
  fun_induction readLiteralFrom written before text with
  | case1 | case2 | case4 | case5 => cases h
  | case3 =>
    cases h
    exact ⟨['"'], [], .close, rfl, by simp, by simp⟩
  | case6 written before d rest notNewline _ _ ih =>
    obtain ⟨body, value, quotes, same, covered, stands⟩ := ih h
    refine ⟨_, _, .escape notNewline quotes, by rw [same]; rfl, ?_, ?_⟩
    · simp [covered]
    · simp [stands]
  | case7 written before c rest notNewline notQuote notEscape ih =>
    obtain ⟨body, value, quotes, same, covered, stands⟩ := ih h
    refine ⟨_, _, .plain notNewline notQuote notEscape quotes, by rw [same]; rfl, ?_, ?_⟩
    · simp [covered]
    · simp [stands]

theorem readLiteral_eq_some {text : List Char} {l : Literal} : readLiteral text = some l ↔
    Quotes l.written l.value ∧ text = l.written ++ l.rest := by
  constructor
  · intro h
    obtain ⟨body, value, quotes, same, covered, stands⟩ := quotes_of_readLiteralFrom h
    rw [covered, stands]
    exact ⟨quotes, same⟩
  · rintro ⟨quotes, same⟩
    rw [same]
    exact readLiteralFrom_of_quotes quotes [] [] l.rest

theorem isNameStart_bounds {c : Char} (starts : isNameStart c = true) :
    65 ≤ c.toNat ∧ c.toNat < 0x80 := by
  have upper : c.isUpper = decide (c.val ≥ 'A'.val ∧ c.val ≤ 'Z'.val) := rfl
  have lower : c.isLower = (decide (c.val ≥ 'a'.val) && decide (c.val ≤ 'z'.val)) := rfl
  have alpha : c.isAlpha = (c.isUpper || c.isLower) := rfl
  rw [isNameStart, alpha, upper, lower] at starts
  simp only [Bool.or_eq_true, Bool.and_eq_true, decide_eq_true_eq, beq_iff_eq, ge_iff_le,
    UInt32.le_iff_toNat_le] at starts
  rcases starts with (⟨least, most⟩ | ⟨least, most⟩) | rfl
  · exact ⟨least, Nat.lt_of_le_of_lt most (by decide)⟩
  · exact ⟨Nat.le_trans (by decide) least, Nat.lt_of_le_of_lt most (by decide)⟩
  · decide

theorem isWordChar_of_isNameStart {c : Char} (starts : isNameStart c = true) :
    isWordChar c = true := by
  rw [isWordChar, if_pos (isNameStart_bounds starts).2, Char.isAlphanum]
  unfold isNameStart at starts
  cases letter : c.isAlpha with
  | true => rfl
  | false =>
    rw [letter, Bool.false_or] at starts
    rw [starts, Bool.or_true]

theorem isDigit_of_isNameStart {c : Char} (starts : isNameStart c = true) :
    isDigit c = false := by
  obtain ⟨least, most⟩ := isNameStart_bounds starts
  rw [isDigit, if_pos most, Bool.eq_false_iff]
  intro digit
  simp only [Char.isDigit, Bool.and_eq_true, decide_eq_true_eq, UInt32.le_iff_toNat_le] at digit
  exact absurd (Nat.le_trans least digit.2) (by decide)

end Text

/-- The characters with which the lexeme of a token goes on. -/
def Token.continues : Token → Char → Bool
  | unsigned _ | signed _ | register _ | identifier _ | directive _ => Text.isWordChar
  | comment => (· != '\n')
  | text _ | colon | comma | openParen | closeParen | newline => fun _ => false

/-- The lexeme of the token ends where the text `rest` begins. -/
def Token.EndsBefore (t : Token) (rest : List Char) : Prop :=
  ∀ c, rest.head? = some c → t.continues c = false

/-- The characters make up a token. -/
inductive Token.Spelled : List Char → Token → Prop
  | signed {digits : List Char} {t : Token} : (∀ c ∈ digits, Text.isWordChar c = true) →
      Reading.signed digits = .ok t → Spelled ('-' :: digits) t
  | register {body : List Char} {t : Token} : (∀ c ∈ body, Text.isWordChar c = true) →
      Reading.register body = .ok t → Spelled ('$' :: body) t
  | text {body value : List Char} : Text.Quotes body value →
      Spelled ('"' :: body) (.text (.ofList value))
  | colon : Spelled [':'] .colon
  | comma : Spelled [','] .comma
  | openParen : Spelled ['('] .openParen
  | closeParen : Spelled [')'] .closeParen
  | newline : Spelled ['\n'] .newline
  | returnNewline : Spelled ['\r', '\n'] .newline
  | comment {body : List Char} : (∀ c ∈ body, c ≠ '\n') → Spelled ('#' :: body) .comment
  | directive {c : Char} {name : List Char} : Text.isNameStart c = true →
      (∀ d ∈ name, Text.isWordChar d = true) →
      Spelled ('.' :: c :: name) (.directive (.ofList (c :: name)))
  | unsigned {c : Char} {digits : List Char} {t : Token} : Text.isDigit c = true →
      (∀ d ∈ digits, Text.isWordChar d = true) → Reading.unsigned (c :: digits) = .ok t →
      Spelled (c :: digits) t
  | identifier {c : Char} {name : List Char} : Text.isNameStart c = true →
      (∀ d ∈ name, Text.isWordChar d = true) →
      Spelled (c :: name) (.identifier (.ofList (c :: name)))

section

variable {p : Char → Bool} {inside rest : List Char}

theorem takeWhile_append_of_head (all : ∀ c ∈ inside, p c = true)
    (stop : ∀ c, rest.head? = some c → p c = false) : (inside ++ rest).takeWhile p = inside := by
  rw [List.takeWhile_append_of_pos all]
  cases rest with
  | nil => exact List.append_nil inside
  | cons c rest => rw [List.takeWhile_cons_of_neg (by simp [stop c rfl]), List.append_nil]

theorem dropWhile_append_of_head (all : ∀ c ∈ inside, p c = true)
    (stop : ∀ c, rest.head? = some c → p c = false) : (inside ++ rest).dropWhile p = rest := by
  rw [List.dropWhile_append_of_pos all]
  cases rest with
  | nil => rfl
  | cons c rest => rw [List.dropWhile_cons_of_neg (by simp [stop c rfl])]

theorem head_dropWhile (p : Char → Bool) (text : List Char) (c : Char)
    (h : (text.dropWhile p).head? = some c) : p c = false := by
  induction text with
  | nil => cases h
  | cons d text ih =>
    rw [List.dropWhile_cons] at h
    split at h
    next => exact ih h
    next stopped =>
      cases h
      exact Bool.eq_false_iff.2 stopped

end

namespace Reading

open Token

variable {c : Char} {rest rest' covered : List Char} {t : Token}

theorem eq_unsigned (h : unsigned covered = .ok t) : ∃ n, t = .unsigned n := by
  unfold unsigned at h
  split at h
  · cases h
    exact ⟨_, rfl⟩
  · cases h

theorem eq_signed (h : signed covered = .ok t) : ∃ z, t = .signed z := by
  unfold signed at h
  split at h
  · split at h
    · cases h
      exact ⟨_, rfl⟩
    · cases h
  · cases h

theorem eq_register (h : register covered = .ok t) : ∃ r, t = .register r := by
  unfold register at h
  split at h
  · cases h
    exact ⟨_, rfl⟩
  · cases h

theorem word_of_all {meaning : List Char → Except LexError Token}
    (all : ∀ d ∈ covered, Text.isWordChar d = true)
    (stop : ∀ d, rest.head? = some d → Text.isWordChar d = false) :
    word c (covered ++ rest) meaning = ⟨c :: covered, rest, meaning covered⟩ := by
  rw [word, takeWhile_append_of_head all stop, dropWhile_append_of_head all stop]

theorem exists_name_of_spelled {name : String} (spelled : Spelled covered (.identifier name)) :
    ∃ c rest, covered = c :: rest ∧ name.toList = covered ∧ Text.isNameStart c = true ∧
      ∀ d ∈ rest, Text.isWordChar d = true := by
  generalize same : Token.identifier name = t at spelled
  cases spelled with
  | signed _ read =>
    obtain ⟨_, rfl⟩ := eq_signed read
    cases same
  | register _ read =>
    obtain ⟨_, rfl⟩ := eq_register read
    cases same
  | unsigned _ _ read =>
    obtain ⟨_, rfl⟩ := eq_unsigned read
    cases same
  | identifier starts all =>
    cases same
    exact ⟨_, _, rfl, String.toList_ofList, starts, all⟩
  | _ => cases same

/-- The characters that decide by themselves what begins with them. -/
def marks : List Char :=
  ['-', '$', '"', ':', ',', '(', ')', '\n', '\r', '#', '.']

theorem first_of_not_mark (other : c ∉ marks) : first c rest =
    if Text.isDigit c then word c rest fun tail => unsigned (c :: tail)
    else if Text.isNameStart c then word c rest fun tail => .ok (.identifier (.ofList (c :: tail)))
    else single c rest (.error .unknownSymbol) := by
  unfold first
  split
  case h_12 => rfl
  all_goals exact absurd (by decide) other

theorem not_mark_of_isDigit (digit : Text.isDigit c = true) : c ∉ marks := by
  have others : marks.all (fun d => !Text.isDigit d) = true := by decide
  intro mark
  have other := List.all_eq_true.1 others c mark
  rw [digit] at other
  cases other

theorem not_mark_of_isNameStart (starts : Text.isNameStart c = true) : c ∉ marks := by
  have others : marks.all (fun d => !Text.isNameStart d) = true := by decide
  intro mark
  have other := List.all_eq_true.1 others c mark
  rw [starts] at other
  cases other

/-- A spelling that the rest does not go on with is read, and nothing more. -/
theorem first_of_spelled (spelled : Spelled (c :: covered) t) (ends : t.EndsBefore rest) :
    first c (covered ++ rest) = ⟨c :: covered, rest, .ok t⟩ := by
  cases spelled with
  | signed all read =>
    obtain ⟨z, rfl⟩ := eq_signed read
    rw [← read]
    exact word_of_all all ends
  | register all read =>
    obtain ⟨r, rfl⟩ := eq_register read
    rw [← read]
    exact word_of_all all ends
  | @text _ value quotes =>
    have read : Text.readLiteral (covered ++ rest) = some ⟨covered, value, rest⟩ :=
      Text.readLiteral_eq_some.2 ⟨quotes, rfl⟩
    change quotedText (covered ++ rest) = _
    rw [quotedText, read]
  | colon | comma | openParen | closeParen | newline | returnNewline => rfl
  | comment all =>
    have inside : ∀ d ∈ covered, (d != '\n') = true := fun d member => by simp [all d member]
    change (⟨'#' :: (covered ++ rest).takeWhile _, (covered ++ rest).dropWhile _, _⟩ : Reading) = _
    rw [takeWhile_append_of_head inside ends, dropWhile_append_of_head inside ends]
  | @directive d name starts all =>
    have inside : ∀ e ∈ d :: name, Text.isWordChar e = true :=
      List.forall_mem_cons.2 ⟨Text.isWordChar_of_isNameStart starts, all⟩
    have begins : ((d :: name) ++ rest).head?.any Text.isNameStart = true := starts
    change (if ((d :: name) ++ rest).head?.any Text.isNameStart = true then
      word '.' ((d :: name) ++ rest) fun name => .ok (.directive (.ofList name)) else _) = _
    rw [if_pos begins, word_of_all inside ends]
  | unsigned digit all read =>
    obtain ⟨n, rfl⟩ := eq_unsigned read
    rw [first_of_not_mark (not_mark_of_isDigit digit), if_pos digit, ← read]
    exact word_of_all all ends
  | identifier starts all =>
    rw [first_of_not_mark (not_mark_of_isNameStart starts),
      if_neg (by rw [Text.isDigit_of_isNameStart starts]; decide), if_pos starts]
    exact word_of_all all ends

/-- What is read is a spelling, and the rest does not go on with it. -/
theorem spelled_of_first (read : (first c rest).result = .ok t) :
    Spelled (first c rest).covered t ∧ t.EndsBefore (first c rest).rest := by
  have all : ∀ d ∈ rest.takeWhile Text.isWordChar, Text.isWordChar d = true :=
    fun d member => List.mem_takeWhile_imp member
  have stop := head_dropWhile Text.isWordChar rest
  revert read
  fun_cases first c rest
  case case1 =>
    intro read
    obtain ⟨z, rfl⟩ := eq_signed read
    exact ⟨.signed all read, stop⟩
  case case2 =>
    intro read
    obtain ⟨r, rfl⟩ := eq_register read
    exact ⟨.register all read, stop⟩
  case case3 =>
    unfold quotedText
    split
    next l found =>
      intro read
      cases read
      exact ⟨.text (Text.readLiteral_eq_some.1 found).1, fun _ _ => rfl⟩
    next => nofun
  case case4 | case5 | case6 | case7 | case8 | case9 =>
    intro read
    cases read
    exact ⟨by constructor, fun _ _ => rfl⟩
  case case10 | case13 | case16 => nofun
  case case11 =>
    intro read
    cases read
    refine ⟨.comment fun d member => ?_, head_dropWhile _ rest⟩
    have other := List.mem_takeWhile_imp member
    exact bne_iff_ne.1 other
  case case12 begins =>
    intro read
    cases read
    cases rest with
    | nil => cases begins
    | cons d rest =>
      have starts : Text.isNameStart d = true := begins
      have word := Text.isWordChar_of_isNameStart starts
      rw [List.takeWhile_cons_of_pos word] at all
      refine ⟨?_, stop⟩
      rw [Reading.word, List.takeWhile_cons_of_pos word]
      exact .directive starts (List.forall_mem_cons.1 all).2
  case case14 digit =>
    intro read
    obtain ⟨n, rfl⟩ := eq_unsigned read
    exact ⟨.unsigned digit all read, stop⟩
  case case15 starts =>
    intro read
    cases read
    exact ⟨.identifier starts all, stop⟩

end Reading

end Mips
