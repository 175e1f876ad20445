import Mips.Diagnostic
import Mips.Register

/-!
# Tokens

The smallest parts of a source that mean something, and what can be wrong with one.
-/
namespace Mips

inductive Token where
  /-- A number without a sign, less than 2 ^ 32. -/
  | unsigned (value : Nat)
  /-- A number with a minus sign, not below -2 ^ 31. -/
  | signed (value : Int)
  /-- A register with its dollar sign. -/
  | register (register : Register)
  /-- A label, a mnemonic or a register without its dollar sign. -/
  | identifier (name : String)
  /-- The name of a directive, without its dot. -/
  | directive (name : String)
  /-- The text that a quoted text stands for. -/
  | text (value : String)
  | colon
  | comma
  | openParen
  | closeParen
  | comment
  | newline
  deriving DecidableEq

/-- Why a piece of the source is no token. -/
inductive LexError where
  | tooBigUnsigned
  | tooBigSigned
  | badHexDigit
  | badDecimalDigit
  | noHexDigits
  | noDecimalDigits
  | unclosedText
  | unknownRegister
  | unknownSymbol
  deriving DecidableEq

namespace LexError

def message : LexError → String
  | tooBigUnsigned => "numeric token does not fit 32-bit unsigned integer"
  | tooBigSigned => "numeric token does not fit 32-bit signed integer"
  | badHexDigit | noHexDigits => "invalid hex literal"
  | badDecimalDigit | noDecimalDigits => "invalid decimal literal"
  | unclosedText => "unclosed string literal"
  | unknownRegister => "unknown register"
  | unknownSymbol => "unrecognized symbol"

/-- What a register may look like. -/
def registerHelp : String :=
  "registers are $0-$31 or one of their names (e.g., $zero, $t0, $sp, $ra)"

def help : LexError → String
  | tooBigUnsigned => "the range for a 32-bit unsigned integer is [0, 4294967295]"
  | tooBigSigned => "the range for a 32-bit signed integer is [-2147483648, 2147483647]"
  | badHexDigit => "a hex literal starts with '0x' and consists of 0-9, A-F"
  | badDecimalDigit => "a decimal literal only consists of digits 0-9"
  | noHexDigits => "there should be hex digits (0-9, A-F) here"
  | noDecimalDigits => "there should be digits (0-9) here"
  | unclosedText => "add a quote to the end of the string literal"
  | unknownRegister => registerHelp
  | unknownSymbol => "this char does not occur in any token in MIPS assembly"

def category : LexError → Category
  | unknownRegister => .unknownRegister
  | _ => .malformed

instance : Diagnostic LexError where
  message := message
  category := category
  help e := some e.help

end LexError

/-- A register as it is written, or the error that it is none. -/
def Register.parse (text : List Char) : Except LexError Register :=
  match Register.parse? text with
  | some r => .ok r
  | none => .error .unknownRegister

end Mips
