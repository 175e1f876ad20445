import Mips.Text.Bytes
import Mips.Text.Quoted
import Mips.Text.WordChar
import Mips.Token

/-!
# Reading tokens

A source is cut into lexemes from left to right. The first character tells what kind of lexeme
begins there, and the lexeme extends as far as its kind allows. A piece that looks like a number or
a register is one lexeme even if it is not a valid one. Spaces and tabs between lexemes are
skipped; a character that begins no token is a lexeme of its own, in error.

Each lexeme covers at least one character, and what it covers and what it leaves make up the text
that was there.
-/
namespace Mips

/-- What the start of a text reads as. -/
structure Reading where
  covered : List Char
  rest : List Char
  result : Except LexError Token

namespace Reading

def single (c : Char) (rest : List Char) (result : Except LexError Token) : Reading :=
  ⟨[c], rest, result⟩

/-- A lexeme of the character `c` and all word characters after it. -/
def word (c : Char) (rest : List Char) (meaning : List Char → Except LexError Token) : Reading :=
  let tail := rest.takeWhile Text.isWordChar
  ⟨c :: tail, rest.dropWhile Text.isWordChar, meaning tail⟩

/-- The value of a numeral, hexadecimal after `0x`, decimal otherwise. -/
def magnitude (digits : List Char) (tooBig : LexError) : Except LexError Nat :=
  let read base badDigit noDigits digits :=
    match Numeral.read base (1 <<< 32) digits with
    | .ok n => .ok n
    | .error .badDigit => .error badDigit
    | .error .empty => .error noDigits
    | .error .tooBig => .error tooBig
  match digits with
  | '0' :: 'x' :: digits => read 16 .badHexDigit .noHexDigits digits
  | '0' :: 'X' :: digits => read 16 .badHexDigit .noHexDigits digits
  | digits => read 10 .badDecimalDigit .noDecimalDigits digits

def unsigned (digits : List Char) : Except LexError Token :=
  match magnitude digits .tooBigUnsigned with
  | .ok n => .ok (.unsigned n)
  | .error e => .error e

def signed (digits : List Char) : Except LexError Token :=
  match magnitude digits .tooBigSigned with
  | .ok n => if n ≤ 1 <<< 31 then .ok (.signed (-n)) else .error .tooBigSigned
  | .error e => .error e

/-- The register with the given name or number after a dollar sign. -/
def register (body : List Char) : Except LexError Token :=
  match Register.parseBody? body with
  | some r => .ok (.register r)
  | none => .error .unknownRegister

/-- A line of the text and what follows it. A carriage return before the newline is not part of
the line. -/
def splitLine (text : List Char) : List Char × List Char :=
  let line := text.takeWhile (· != '\n')
  let rest := text.dropWhile (· != '\n')
  if !rest.isEmpty && line.getLast? == some '\r' then (line.dropLast, '\r' :: rest)
  else (line, rest)

/-- A quoted text, its opening quote already taken. Without a closing quote the lexeme is the rest
of the line. -/
def quotedText (rest : List Char) : Reading :=
  match Text.readLiteral rest with
  | some literal => ⟨'"' :: literal.written, literal.rest, .ok (.text (.ofList literal.value))⟩
  | none =>
    let (line, rest) := splitLine rest
    ⟨'"' :: line, rest, .error .unclosedText⟩

/-- The lexeme of a text that begins with `c` and goes on with `rest`. -/
def first (c : Char) (rest : List Char) : Reading :=
  match c with
  | '-' => word c rest signed
  | '$' => word c rest register
  | '"' => quotedText rest
  | ':' => single c rest (.ok .colon)
  | ',' => single c rest (.ok .comma)
  | '(' => single c rest (.ok .openParen)
  | ')' => single c rest (.ok .closeParen)
  | '\n' => single c rest (.ok .newline)
  | '\r' =>
    match rest with
    | '\n' :: rest => ⟨['\r', '\n'], rest, .ok .newline⟩
    | rest => single c rest (.error .unknownSymbol)
  | '#' => ⟨c :: rest.takeWhile (· != '\n'), rest.dropWhile (· != '\n'), .ok .comment⟩
  | '.' =>
    if rest.head?.any Text.isNameStart then
      word c rest fun name => .ok (.directive (.ofList name))
    else single c rest (.error .unknownSymbol)
  | c =>
    if Text.isDigit c then word c rest fun tail => unsigned (c :: tail)
    else if Text.isNameStart c then
      word c rest fun tail => .ok (.identifier (.ofList (c :: tail)))
    else single c rest (.error .unknownSymbol)

theorem splitLine_append (text : List Char) : (splitLine text).1 ++ (splitLine text).2 = text := by
  unfold splitLine
  simp only
  split
  next h =>
    obtain ⟨line, hline⟩ : ∃ line, text.takeWhile (· != '\n') = line ++ ['\r'] := by
      rw [← List.getLast?_eq_some_iff]
      simp_all
    have := List.takeWhile_append_dropWhile (p := (· != '\n')) (l := text)
    simpa [hline] using this
  next => exact List.takeWhile_append_dropWhile

theorem quotedText_append (rest : List Char) :
    (quotedText rest).covered ++ (quotedText rest).rest = '"' :: rest := by
  unfold quotedText
  split
  next l h => simp [Text.written_append_rest h]
  next => simp [splitLine_append]

@[simp] theorem word_append (c : Char) (rest : List Char)
    (meaning : List Char → Except LexError Token) :
    (word c rest meaning).covered ++ (word c rest meaning).rest = c :: rest := by
  simp [word]

@[simp] theorem single_append (c : Char) (rest : List Char) (result : Except LexError Token) :
    (single c rest result).covered ++ (single c rest result).rest = c :: rest := rfl

/-- Nothing of the text is lost or read twice. -/
theorem covered_append_rest (c : Char) (rest : List Char) :
    (first c rest).covered ++ (first c rest).rest = c :: rest := by
  unfold first
  repeat' split
  all_goals simp [quotedText_append]

theorem covered_ne_nil (c : Char) (rest : List Char) : (first c rest).covered ≠ [] := by
  unfold first quotedText word single
  repeat' split
  all_goals simp

theorem length_rest_le (c : Char) (rest : List Char) :
    (first c rest).rest.length ≤ rest.length := by
  have h := congrArg List.length (covered_append_rest c rest)
  have := List.length_pos_iff.2 (covered_ne_nil c rest)
  simp only [List.length_append, List.length_cons] at h
  omega

end Reading

/-- A token or an error, and the bytes of the source that it covers. -/
structure Lexeme where
  span : Span
  result : Except LexError Token

namespace Lexeme

/-- The characters that separate lexemes without being part of one. -/
def isSeparator (c : Char) : Bool :=
  c == ' ' || c == '\t'

/-- Appends to `done` the lexemes of a text that begins at byte `start` of the source. -/
def readFrom (start : Nat) (done : Array Lexeme) (text : List Char) : Array Lexeme :=
  match text with
  | [] => done
  | c :: rest =>
    if isSeparator c then readFrom (start + c.utf8Size) done rest
    else
      let reading := Reading.first c rest
      let stop := start + Text.byteLength reading.covered
      readFrom stop (done.push ⟨⟨start, stop⟩, reading.result⟩) reading.rest
termination_by text.length
decreasing_by
  · simp
  · exact Nat.lt_succ_of_le (Reading.length_rest_le c rest)

def ofSource (source : String) : List Lexeme :=
  (readFrom 0 #[] source.toList).toList

end Lexeme

end Mips
