import Mips.Operand
import Mips.Statement
import Mips.Token.Lexer

/-!
# Statements of a source

A source is read line by line. A line begins with any number of labels, each a name and a colon,
and goes on with at most one instruction or directive. Labels wait for the next statement if none
follows them on their line; those that wait at the end make a statement of their own. The first
error ends the reading; errors of tokens come before all others.
-/
namespace Mips

/-- The instruction of a mnemonic and its operands, which are checked from left to right once
their number is right. -/
def Instr.ofOperands (m : Mnemonic) (span : Span) (operands : List Operand) :
    Except ParseError Instr := do
  match m, operands with
  | .reg op, [rd, rs, rt] => return .reg op (← rd.register) (← rs.register) (← rt.register)
  | .shift op, [rd, rt, amount] =>
    return .shift op (← rd.register) (← rt.register) (← amount.shiftAmount)
  | .jr, [rs] => return .jr (← rs.register)
  | .imm op, [rt, rs, value] => return .imm op (← rt.register) (← rs.register) (← value.word)
  | .lui, [rt, value] => return .lui (← rt.register) (← value.word)
  | .li, [rd, value] => return .li (← rd.register) (← value.word)
  | .la, [rd, label] => return .la (← rd.register) (← label.label)
  | .mem op, [rt, address] => return .mem op (← rt.register) (← address.address)
  | .branch op, [rs, rt, label] =>
    return .branch op (← rs.register) (← rt.register) (← label.label)
  | .jump op, [label] => return .jump op (← label.label)
  | .move, [rd, rs] => return .move (← rd.register) (← rs.register)
  | .syscall, [] => return .syscall
  | m, operands => throw (.atSpan span (.operandCount m.name m.arity operands.length))

def Directive.ofOperands (name : String) (nameSpan span : Span) (operands : List Operand) :
    Except ParseError Directive :=
  let wrongCount (expected : Nat) : Except ParseError Directive :=
    .error (.atSpan span (.operandCount ("." ++ name) expected operands.length))
  match name.toLower, operands with
  | "data", [] => .ok .data
  | "data", _ => wrongCount 0
  | "text", [] => .ok .text
  | "text", _ => wrongCount 0
  | "word", [] => wrongCount 1
  | "word", operands => (operands.mapM Operand.word).map .word
  | "asciiz", [value] => value.text.map .asciiz
  | "asciiz", _ => wrongCount 1
  | "globl", [label] | "global", [label] => label.label.map .globl
  | "globl", _ | "global", _ => wrongCount 1
  | _, _ => .error (.atSpan nameSpan (.unknownDirective name))

/-- What a line does after its labels. -/
def Nucleus.ofTokens (first : Placed) (rest : List Placed) (span : Span) :
    Except ParseError Nucleus := do
  match first.token with
  | .directive name =>
    let operands ← Operand.ofTokens rest
    return .directive (← Directive.ofOperands name first.span span operands)
  | .identifier name =>
    match Mnemonic.ofName name with
    | .error e => throw (.atSpan first.span (.unsupported e))
    | .ok m =>
      let operands ← Operand.ofTokens rest
      return .instr (← Instr.ofOperands m span operands)
  | _ => throw (.atSpan first.span .noStatement)

namespace Statement

/-- The tokens of the lexemes, without comments, or the first error among them. -/
def significant (lexemes : List Lexeme) : Except ParseError (List Placed) :=
  let noted := lexemes.filter fun l => !(l.result matches .ok .comment)
  noted.mapM fun l =>
    match l.result with
    | .ok token => .ok ⟨token, l.span⟩
    | .error e => .error (.atSpan l.span (.lex e))

/-- The tokens between newlines. There is one line more than there are newlines. -/
def lines (tokens : List Placed) : List (List Placed) :=
  tokens.foldr
    (fun t lines =>
      match t.token, lines with
      | .newline, lines => [] :: lines
      | _, line :: lines => (t :: line) :: lines
      | _, [] => [[t]])
    [[]]

/-- Appends to `labels` those that a line begins with, and gives the tokens after them. -/
def leadingLabels (labels : Array Label) : List Placed → Array Label × List Placed
  | ⟨.identifier name, span⟩ :: ⟨.colon, _⟩ :: rest =>
    leadingLabels (labels.push ⟨name, span.start⟩) rest
  | rest => (labels, rest)

/-- The statements so far, and the labels that wait for the next one. -/
structure Progress where
  statements : Array Statement
  waiting : Array Label

def Progress.addLine : (p : Progress) → (line : List Placed) → Except ParseError Progress
  | ⟨statements, waiting⟩, line =>
    match leadingLabels waiting line with
    | (labels, []) => .ok ⟨statements, labels⟩
    | (labels, first :: rest) =>
      let span := ⟨first.span.start, (rest.getLastD first).span.stop⟩
      match Nucleus.ofTokens first rest span with
      | .ok nucleus => .ok ⟨statements.push ⟨labels.toList, nucleus, span⟩, #[]⟩
      | .error e => .error e

/-- The statements, with one more for labels that still wait at byte `stop`, the end. -/
def Progress.finish (p : Progress) (stop : Nat) : List Statement :=
  if p.waiting.isEmpty then p.statements.toList
  else (p.statements.push ⟨p.waiting.toList, .empty, ⟨stop, stop⟩⟩).toList

def parse (source : String) : Except ParseError (List Statement) := do
  let tokens ← significant (Lexeme.ofSource source)
  let progress ← (lines tokens).foldlM Progress.addLine ⟨#[], #[]⟩
  return progress.finish source.utf8ByteSize

end Statement

end Mips
