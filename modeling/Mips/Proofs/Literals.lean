import Mathlib.Algebra.Group.Nat.Even
import Mips.Proofs.Tiling

/-!
# Literals

A literal ends at the first quote of its line that has an even number of backslashes right before
it. Between the quotes each backslash belongs to the character after it. These two descriptions
agree, however many backslashes follow each other: taking away a character that is no backslash, or
a backslash and the character after it, changes neither. A text whose special characters are
replaced by their escapes hence is what the literal of it stands for, whatever follows.
-/
namespace Mips

namespace Text

def escapes : List (Char × Char) :=
  [('n', '\n'), ('r', '\r'), ('t', '\t'), ('0', '\x00'), ('\\', '\\'), ('"', '"')]

def escapeChar (c : Char) : List Char :=
  match escapes.find? (·.2 == c) with
  | some (letter, _) => ['\\', letter]
  | none => [c]

def escaped (text : String) : String :=
  .ofList (text.toList.flatMap escapeChar)

/-- What the characters between two quotes stand for. A backslash goes with the character after it,
so that there is no rule for one at the end. -/
inductive Stands : List Char → List Char → Prop
  | nil : Stands [] []
  | plain {c : Char} {body value : List Char} : c ≠ '\\' → Stands body value →
      Stands (c :: body) (c :: value)
  | escape {letter c : Char} {body value : List Char} : (letter, c) ∈ escapes →
      Stands body value → Stands ('\\' :: letter :: body) (c :: value)
  | kept {d : Char} {body value : List Char} : (∀ c, (d, c) ∉ escapes) → Stands body value →
      Stands ('\\' :: d :: body) ('\\' :: d :: value)

def backslashesBehind (text : List Char) : Nat :=
  (text.reverse.takeWhile (· == '\\')).length

/-- Character number `n` is a quote that an even number of backslashes comes right before. -/
def ClosesAt (text : List Char) (n : Nat) : Prop :=
  text[n]? = some '"' ∧ Even (backslashesBehind (text.take n))

instance (text : List Char) (n : Nat) : Decidable (ClosesAt text n) :=
  inferInstanceAs (Decidable (_ ∧ _))

/-- The first such quote. -/
def ClosesFirstAt (text : List Char) (n : Nat) : Prop :=
  ClosesAt text n ∧ ∀ k < n, ¬ ClosesAt text k

section

variable {c d : Char} {line : List Char} {n : Nat}

theorem backslashesBehind_cons (other : c ≠ '\\') :
    backslashesBehind (c :: line) = backslashesBehind line := by
  have stop : [c].takeWhile (· == '\\') = [] :=
    List.takeWhile_cons_of_neg (by simpa using other)
  unfold backslashesBehind
  rw [List.reverse_cons, List.takeWhile_append, stop]
  split
  next all => rw [List.append_nil, all]
  next => rfl

/-- A pair adds two to a run of backslashes that goes back to it, or ends the run. -/
theorem even_backslashesBehind_pair :
    Even (backslashesBehind ('\\' :: d :: line)) ↔ Even (backslashesBehind line) := by
  by_cases same : d = '\\'
  · have pair : ['\\', '\\'].takeWhile (· == '\\') = ['\\', '\\'] := by decide
    unfold backslashesBehind
    rw [same, List.reverse_cons, List.reverse_cons, List.append_assoc, List.takeWhile_append]
    split
    next all =>
      rw [List.singleton_append, pair, List.length_append, all]
      exact Nat.even_add.trans (iff_true_right (by decide))
    next => exact Iff.rfl
  · have stop : [d, '\\'].takeWhile (· == '\\') = [] :=
      List.takeWhile_cons_of_neg (by simpa using same)
    unfold backslashesBehind
    rw [List.reverse_cons, List.reverse_cons, List.append_assoc, List.takeWhile_append,
      List.singleton_append, stop]
    split
    next all => rw [List.append_nil, all]
    next => exact Iff.rfl

theorem closesAt_cons (other : c ≠ '\\') : ClosesAt (c :: line) (n + 1) ↔ ClosesAt line n := by
  rw [ClosesAt, ClosesAt, List.getElem?_cons_succ, List.take_succ_cons,
    backslashesBehind_cons other]

theorem closesAt_pair : ClosesAt ('\\' :: d :: line) (n + 2) ↔ ClosesAt line n := by
  rw [ClosesAt, ClosesAt, List.getElem?_cons_succ, List.getElem?_cons_succ, List.take_succ_cons,
    List.take_succ_cons, even_backslashesBehind_pair]

theorem not_closesAt_nil : ¬ ClosesAt [] n := by
  rintro ⟨quote, -⟩
  cases quote

theorem not_closesAt_zero (other : c ≠ '"') : ¬ ClosesAt (c :: line) 0 := by
  rintro ⟨quote, -⟩
  exact other (Option.some.inj quote)

theorem not_closesAt_one : ¬ ClosesAt ('\\' :: line) 1 := by
  rintro ⟨-, even⟩
  have one : backslashesBehind (('\\' :: line).take 1) = 1 := rfl
  rw [one] at even
  exact absurd even (by decide)

theorem not_closesAt_pair (none : ∀ k < n, ¬ ClosesAt line k) :
    ∀ k < n + 2, ¬ ClosesAt ('\\' :: d :: line) k := by
  intro k less
  match k with
  | 0 => exact not_closesAt_zero (by decide)
  | 1 => exact not_closesAt_one
  | k + 2 => exact fun closes => none k (by omega) (closesAt_pair.1 closes)

theorem not_closesAt_cons (noQuote : c ≠ '"') (noBackslash : c ≠ '\\')
    (none : ∀ k < n, ¬ ClosesAt line k) : ∀ k < n + 1, ¬ ClosesAt (c :: line) k := by
  intro k less
  match k with
  | 0 => exact not_closesAt_zero noQuote
  | k + 1 => exact fun closes => none k (by omega) ((closesAt_cons noBackslash).1 closes)

theorem ClosesFirstAt.unique {k : Nat} (h : ClosesFirstAt line n) (h' : ClosesFirstAt line k) :
    n = k := by
  rcases Nat.lt_trichotomy n k with less | same | more
  · exact absurd h.1 (h'.2 n less)
  · exact same
  · exact absurd h'.1 (h.2 k more)

end

section

variable {body value : List Char}

theorem Stands.unescape (h : Stands body value) (d : Char) :
    Stands ('\\' :: d :: body) (unescape d ++ value) := by
  unfold Text.unescape
  split
  case h_7 => exact .kept (by simp_all [escapes]) h
  all_goals exact .escape (by decide) h

/-- The quote that ends a literal is the first one that closes it, and what is before it stands for
the value of the literal. The induction takes away what the scan has gone over. -/
theorem exists_stands_of_quotes (quotes : Quotes body value) : ∃ inner, body = inner ++ ['"'] ∧
    Stands inner value ∧ ∀ rest, ClosesFirstAt (body ++ rest) inner.length := by
  induction quotes with
  | close =>
    have even : Even (backslashesBehind []) := by decide
    exact ⟨[], rfl, .nil, fun rest => ⟨⟨rfl, even⟩, fun k less => absurd less (Nat.not_lt_zero k)⟩⟩
  | @escape d body value _ _ ih =>
    obtain ⟨inner, rfl, stands, first⟩ := ih
    refine ⟨'\\' :: d :: inner, rfl, stands.unescape d, fun rest => ?_⟩
    exact ⟨closesAt_pair.2 (first rest).1, not_closesAt_pair (first rest).2⟩
  | @plain c body value _ noQuote noBackslash _ ih =>
    obtain ⟨inner, rfl, stands, first⟩ := ih
    refine ⟨c :: inner, rfl, .plain noBackslash stands, fun rest => ?_⟩
    exact ⟨(closesAt_cons noBackslash).2 (first rest).1,
      not_closesAt_cons noQuote noBackslash (first rest).2⟩

theorem not_closesAt_singleton (n : Nat) : ¬ ClosesAt ['\\'] n := by
  cases n with
  | zero => exact not_closesAt_zero (by decide)
  | succ n =>
    rintro ⟨quote, -⟩
    cases quote

theorem not_closesAt_of_unclosed {written before text : List Char}
    (unclosed : readLiteralFrom written before text = none) (n : Nat) :
    ¬ ClosesAt (text.takeWhile (· != '\n')) n := by
  fun_induction readLiteralFrom written before text generalizing n with
  | case1 => exact not_closesAt_nil
  | case2 => exact not_closesAt_nil
  | case3 => cases unclosed
  | case4 => exact not_closesAt_singleton n
  | case5 => exact not_closesAt_singleton n
  | case6 written before d rest notNewline _ _ ih =>
    rw [List.takeWhile_cons_of_pos (by decide),
      List.takeWhile_cons_of_pos (by simpa using notNewline)]
    exact not_closesAt_pair (fun k _ => ih unclosed k) n (Nat.lt_add_of_pos_right Nat.two_pos)
  | case7 written before c rest notNewline noQuote noBackslash ih =>
    rw [List.takeWhile_cons_of_pos (by simpa using notNewline)]
    exact not_closesAt_cons noQuote noBackslash (fun k _ => ih unclosed k) n (Nat.lt_succ_self n)

theorem exists_closesFirstAt {text : List Char} {l : Literal} (read : readLiteral text = some l) :
    ∃ n, ClosesFirstAt (text.takeWhile (· != '\n')) n ∧ Stands (text.take n) l.value ∧
      l.written = text.take (n + 1) ∧ l.rest = text.drop (n + 1) := by
  obtain ⟨quotes, cut⟩ := readLiteral_eq_some.1 read
  obtain ⟨inner, written, stands, first⟩ := exists_stands_of_quotes quotes
  have level : ∀ c ∈ l.written, (c != '\n') = true := fun c member =>
    bne_iff_ne.2 fun same => newline_not_mem_quotes quotes (same ▸ member)
  have length : l.written.length = inner.length + 1 := by rw [written, List.length_append]; rfl
  have before : (l.written ++ l.rest).take inner.length = inner := by
    rw [written, List.append_assoc, List.take_left]
  refine ⟨inner.length, ?_, ?_, ?_, ?_⟩
  · rw [cut, List.takeWhile_append_of_pos level]
    exact first _
  · rw [cut, before]
    exact stands
  · rw [cut, List.take_left' length]
  · rw [cut, List.drop_left' length]

/-- An escaped text with the closing quote behind it is quoted, and stands for the text. -/
theorem quotes_flatMap_escapeChar (value : List Char) :
    Quotes (value.flatMap escapeChar ++ ['"']) value := by
  have letters : ∀ e ∈ escapes, e.1 ≠ '\n' ∧ unescape e.1 = [e.2] := by decide
  induction value with
  | nil => exact .close
  | cons c value ih =>
    rw [List.flatMap_cons, List.append_assoc]
    unfold escapeChar
    split
    next letter d found =>
      have same : d = c := by simpa using List.find?_some found
      obtain ⟨notNewline, stands⟩ := letters _ (List.mem_of_find?_eq_some found)
      have quotes := Quotes.escape notNewline ih
      rw [stands] at quotes
      exact same ▸ quotes
    next none =>
      have plain : ∀ e ∈ escapes, e.2 ≠ c := by simpa using List.find?_eq_none.1 none
      simp only [escapes, List.forall_mem_cons] at plain
      obtain ⟨newline, -, -, -, backslash, quote, -⟩ := plain
      exact .plain newline.symm quote.symm backslash.symm ih

end

end Text

namespace Reading

variable {text : List Char}

theorem quotedText_closed_iff : (∃ value, (quotedText text).result = .ok (.text value)) ↔
    ∃ n, Text.ClosesAt (text.takeWhile (· != '\n')) n := by
  unfold quotedText
  cases read : Text.readLiteral text with
  | some l =>
    obtain ⟨n, first, -⟩ := Text.exists_closesFirstAt read
    exact iff_of_true ⟨_, rfl⟩ ⟨n, first.1⟩
  | none =>
    refine iff_of_false (fun ⟨value, closed⟩ => by cases closed) fun ⟨n, closes⟩ => ?_
    exact Text.not_closesAt_of_unclosed read n closes

/-- Where a quote of the line closes it, the lexeme ends with the first one that does. -/
theorem quotedText_of_closesFirstAt {n : Nat}
    (first : Text.ClosesFirstAt (text.takeWhile (· != '\n')) n) : ∃ value,
      Text.Stands (text.take n) value ∧ quotedText text =
        ⟨'"' :: text.take (n + 1), text.drop (n + 1), .ok (.text (.ofList value))⟩ := by
  cases read : Text.readLiteral text with
  | none => exact absurd first.1 (Text.not_closesAt_of_unclosed read n)
  | some l =>
    obtain ⟨k, first', stands, written, rest⟩ := Text.exists_closesFirstAt read
    obtain rfl := first.unique first'
    refine ⟨l.value, stands, ?_⟩
    rw [quotedText, read]
    dsimp only
    rw [written, rest]

end Reading

namespace Lexeme

theorem head?_readFrom {start : Nat} {c : Char} {rest : List Char}
    (other : isSeparator c = false) : (readFrom start #[] (c :: rest)).toList.head? =
      some ⟨⟨start, start + Text.byteLength (Reading.first c rest).covered⟩,
        (Reading.first c rest).result⟩ := by
  rw [readFrom, if_neg (by simp [other])]
  obtain ⟨later, read, -⟩ := tiles_readFrom
    (start + Text.byteLength (Reading.first c rest).covered)
    (#[].push ⟨⟨start, start + Text.byteLength (Reading.first c rest).covered⟩,
      (Reading.first c rest).result⟩) (Reading.first c rest).rest
  dsimp only
  rw [read]
  rfl

/-- The literal of an escaped text is a lexeme of its own and stands for the text. -/
theorem head?_ofSource_literal (s rest : String) :
    (ofSource ("\"" ++ Text.escaped s ++ "\"" ++ rest)).head? =
      some ⟨⟨0, (Text.escaped s).utf8ByteSize + 2⟩, .ok (.text s)⟩ := by
  let written := (Text.escaped s).toList ++ ['"']
  have source : ("\"" ++ Text.escaped s ++ "\"" ++ rest).toList =
      '"' :: (written ++ rest.toList) := by
    simp [written]
  have quotes : Text.Quotes written s.toList := by
    rw [show written = s.toList.flatMap Text.escapeChar ++ ['"'] by simp [written, Text.escaped]]
    exact Text.quotes_flatMap_escapeChar s.toList
  have read : Reading.first '"' (written ++ rest.toList) =
      ⟨'"' :: written, rest.toList, .ok (.text s)⟩ := by
    have spelled := Token.Spelled.text quotes
    rw [String.ofList_toList] at spelled
    exact Reading.first_of_spelled spelled fun _ _ => rfl
  have size : Text.byteLength ('"' :: written) = (Text.escaped s).utf8ByteSize + 2 := by
    rw [Text.byteLength_cons, Text.byteLength_append, Text.byteLength_toList, Nat.add_comm]
    rfl
  rw [ofSource, source, head?_readFrom rfl, read, size, Nat.zero_add]

/-- Reading a literal undoes escaping, whatever follows. A literal is closed just if its line has a
quote with an even number of backslashes right before it, and ends with the first such quote. Every
backslash before that has a character after it, with which it stands for another one or for both. -/
theorem literals_stand_for_texts :
    (∀ s rest : String, (ofSource ("\"" ++ Text.escaped s ++ "\"" ++ rest)).head? =
      some ⟨⟨0, (Text.escaped s).utf8ByteSize + 2⟩, .ok (.text s)⟩) ∧
    ∀ text : List Char,
      ((∃ value, (Reading.first '"' text).result = .ok (.text value)) ↔
        ∃ n, Text.ClosesAt (text.takeWhile (· != '\n')) n) ∧
      ∀ n, Text.ClosesFirstAt (text.takeWhile (· != '\n')) n → ∃ value,
        Text.Stands (text.take n) value ∧ Reading.first '"' text =
          ⟨'"' :: text.take (n + 1), text.drop (n + 1), .ok (.text (.ofList value))⟩ := by
  refine ⟨head?_ofSource_literal, fun text => ⟨?_, fun n first => ?_⟩⟩
  · exact Reading.quotedText_closed_iff
  · exact Reading.quotedText_of_closesFirstAt first

/-- An escaped quote, a kept backslash, an escaped backslash in front of the closing quote and a
quote behind it. -/
def backslashes : List Char :=
  ['a', '\\', '"', '\\', 'x', '\\', '\\', '"', ' ', '"']

theorem literals_stand_for_texts_backslashes :
    Text.ClosesFirstAt (backslashes.takeWhile (· != '\n')) 7 ∧
      ∃ value, Text.Stands ['a', '\\', '"', '\\', 'x', '\\', '\\'] value ∧
        Reading.first '"' backslashes =
          ⟨'"' :: backslashes.take 8, [' ', '"'], .ok (.text (.ofList value))⟩ := by
  have first : Text.ClosesFirstAt (backslashes.takeWhile (· != '\n')) 7 := by
    unfold Text.ClosesFirstAt
    decide
  exact ⟨first, (literals_stand_for_texts.2 backslashes).2 7 first⟩

end Lexeme

end Mips
