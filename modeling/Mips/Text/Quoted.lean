import Mips.Text.Printable

/-!
# Quoted texts

How a text is shown between double quotes: each character as itself if it is printable, as a
two-character escape if it has one, and as `\u` with its code point in braces otherwise.
-/
namespace Mips.Text

def quoteChar (c : Char) : List Char :=
  match c with
  | '\x00' => ['\\', '0']
  | '\t' => ['\\', 't']
  | '\r' => ['\\', 'r']
  | '\n' => ['\\', 'n']
  | '"' => ['\\', '"']
  | '\\' => ['\\', '\\']
  | c =>
    if isPrintable c then [c]
    else ['\\', 'u', '\x7b'] ++ Nat.toDigits 16 c.toNat ++ ['\x7d']

def quoted (text : String) : String :=
  String.ofList ('"' :: text.toList.flatMap quoteChar ++ ['"'])

/-- What a backslash and the character `c` stand for: a character of its own, or the two as they
are. -/
def unescape (c : Char) : List Char :=
  match c with
  | 'n' => ['\n']
  | 'r' => ['\r']
  | 't' => ['\t']
  | '\\' => ['\\']
  | '0' => ['\x00']
  | '"' => ['"']
  | c => ['\\', c]

/-- A quoted text as it was found after its opening quote. -/
structure Literal where
  /-- The characters as written, up to and with the closing quote. -/
  written : List Char
  /-- The text that they stand for. -/
  value : List Char
  /-- What follows the closing quote. -/
  rest : List Char

/-- Reads up to the first quote that no backslash escapes, with the characters written and their
meaning so far in reverse. The text ends with its line: without a quote before the line end there
is none. -/
def readLiteralFrom (written value : List Char) : List Char → Option Literal
  | [] => none
  | c :: rest =>
    if c = '\n' then none
    else if c = '"' then some ⟨(c :: written).reverse, value.reverse, rest⟩
    else if c = '\\' then
      match rest with
      | [] => none
      | d :: rest =>
        if d = '\n' then none
        else readLiteralFrom (d :: c :: written) ((unescape d).reverse ++ value) rest
    else readLiteralFrom (c :: written) (c :: value) rest

/-- The quoted text that `text` begins with, its opening quote already taken. -/
def readLiteral (text : List Char) : Option Literal :=
  readLiteralFrom [] [] text

theorem written_append_rest_of_readLiteralFrom {written value text : List Char} {l : Literal}
    (h : readLiteralFrom written value text = some l) :
    l.written ++ l.rest = written.reverse ++ text := by
  fun_induction readLiteralFrom written value text with
  | case1 => simp at h
  | case2 => simp at h
  | case3 written value c rest => simp_all; simp [← h]
  | case4 => simp at h
  | case5 => simp at h
  | case6 written value rest d _ _ _ ih => simp [ih h]
  | case7 written value c rest _ _ _ ih => simp [ih h]

/-- A quoted text and what follows it make up the text that was read. -/
theorem written_append_rest {text : List Char} {l : Literal} (h : readLiteral text = some l) :
    l.written ++ l.rest = text := by
  simpa using written_append_rest_of_readLiteralFrom h

end Mips.Text
