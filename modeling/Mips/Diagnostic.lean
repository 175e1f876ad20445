/-!
# Diagnostics

Every error of the library is a cause. What is common to all of them is how they are shown: a
message, the broad kind of failure, advice where there is any, the places in the source, and the
error that lies beneath.
-/
namespace Mips

/-- A range of bytes of the source: from `start` up to but without `stop`. -/
structure Span where
  start : Nat
  stop : Nat
  deriving DecidableEq

inductive Places where
  | one (span : Span)
  | two (first second : Span)
  | many (spans : List Span)
  deriving DecidableEq

namespace Places

def ofList : List Span → Places
  | [span] => .one span
  | [first, second] => .two first second
  | spans => .many spans

def toList : Places → List Span
  | one span => [span]
  | two first second => [first, second]
  | many spans => spans

def first? (places : Places) : Option Span :=
  places.toList.head?

@[simp] theorem toList_ofList (spans : List Span) : (ofList spans).toList = spans := by
  match spans with
  | [] | [_] | [_, _] | _ :: _ :: _ :: _ => rfl

end Places

/-- The broad kinds of failure. -/
inductive Category where
  /-- A line is malformed, or stands where it must not. -/
  | malformed
  /-- Operands do not fit their operation. -/
  | encoding
  /-- A label is needed and has no address. -/
  | unresolvedLabel
  | unknownRegister
  | unsupportedOperation
  | invalidSession
  deriving DecidableEq

def Category.text : Category → String
  | malformed => "syntax error"
  | encoding => "encoding error"
  | unresolvedLabel => "unresolved label error"
  | unknownRegister => "unknown register error"
  | unsupportedOperation => "unsupported operation error"
  | invalidSession => "invalid session error"

/-- How an error is shown. -/
class Diagnostic (ε : Type) where
  message : ε → String
  category : ε → Category
  help : ε → Option String
  places : ε → Option Places := fun _ => none
  /-- The message of the error beneath this one. -/
  cause : ε → Option String := fun _ => none

end Mips
