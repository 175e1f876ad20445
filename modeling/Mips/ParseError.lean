import Mips.Mnemonic
import Mips.Token

/-!
# What can be wrong with a line

The causes for which a source is no list of statements, and where they show.
-/
namespace Mips

/-- Why a source cannot be parsed. -/
inductive ParseError.Cause where
  | lex (error : LexError)
  | unsupported (error : UnsupportedOperation)
  | unknownDirective (name : String)
  /-- A line goes on with something that begins no statement. -/
  | noStatement
  /-- A token that begins no operand stands where an operand is expected. -/
  | unexpectedToken
  | unknownRegister (name : String)
  | operandCount (name : String) (expected found : Nat)
  | noRegister
  | noInteger
  | noLabel
  | noAddress
  | noText
  deriving DecidableEq

structure ParseError where
  cause : ParseError.Cause
  places : Places
  deriving DecidableEq

namespace ParseError.Cause

def message : Cause → String
  | lex e => e.message
  | unsupported e => e.message
  | unknownDirective name => "unknown directive ." ++ name
  | noStatement => "expected instruction or directive"
  | unexpectedToken => "unexpected token"
  | unknownRegister name => "unknown register " ++ name
  | operandCount name expected found =>
    name ++ " expects " ++ Numeral.decimal expected ++ " operand(s), but " ++
      Numeral.decimal found ++ " were provided"
  | noRegister => "expected register"
  | noInteger => "expected integer"
  | noLabel => "expected label"
  | noAddress => "expected memory operand"
  | noText => "expected string literal"

def help : Cause → Option String
  | lex e => some e.help
  | unsupported _ => some UnsupportedOperation.help
  | unknownDirective _ =>
    some "supported directives are .data, .text, .word, .asciiz, and .globl"
  | noStatement =>
    some "a line consists of optional labels (name:) followed by an instruction or directive"
  | unexpectedToken =>
    some "operands are registers, integers, labels, offset(base) pairs, or strings"
  | unknownRegister _ => some LexError.registerHelp
  | operandCount .. => none
  | noRegister => some "try a register such as $t0"
  | noInteger => some "try a decimal or hex (0x) integer"
  | noLabel => some "try a label name"
  | noAddress => some "try an operand such as 4($sp) or a data label"
  | noText => some "try a double-quoted string"

def category : Cause → Category
  | lex e => e.category
  | unsupported _ => .unsupportedOperation
  | unknownRegister _ => .unknownRegister
  | unknownDirective _ | noStatement | unexpectedToken => .malformed
  | operandCount .. | noRegister | noInteger | noLabel | noAddress | noText => .encoding

/-- The error beneath, if the cause is one of a token or of a mnemonic. -/
def beneath : Cause → Option String
  | lex e => some e.message
  | unsupported e => some e.message
  | _ => none

end ParseError.Cause

namespace ParseError

def atSpan (span : Span) (cause : Cause) : ParseError :=
  ⟨cause, .one span⟩

instance : Diagnostic ParseError where
  message e := e.cause.message
  category e := e.cause.category
  help e := e.cause.help
  places e := some e.places
  cause e := e.cause.beneath

end ParseError

end Mips
