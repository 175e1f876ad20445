import Mips.Instr
import Mips.ParseError

/-!
# Operands

What follows a mnemonic or the name of a directive is a list of operand phrases, each of which may
have one comma after it. A phrase is a register, a name, a number, a text, or a memory access with
its base register in parentheses. A number directly before a parenthesis belongs to a memory
access if a token and a closing parenthesis follow.
-/
namespace Mips

/-- A token and where it stands. -/
structure Placed where
  token : Token
  span : Span
  deriving DecidableEq

/-- An operand before it is known what it must be. -/
inductive Operand.Value where
  | register (r : Register)
  | name (name : String)
  | integer (n : Int)
  | access (offset : Int) (base : Register)
  | text (value : String)
  deriving DecidableEq

structure Operand where
  value : Operand.Value
  span : Span
  deriving DecidableEq

def Token.integer? : Token → Option Int
  | unsigned n => some n
  | signed z => some z
  | _ => none

namespace Operand

/-- The register that a name without a dollar sign means. -/
def namedRegister (name : String) (span : Span) : Except ParseError Register :=
  match Register.ofName? name with
  | some r => .ok r
  | none => .error (.atSpan span (.unknownRegister name))

def baseRegister (t : Placed) : Except ParseError Register :=
  match t.token with
  | .register r => .ok r
  | .identifier name => namedRegister name t.span
  | _ => .error (.atSpan t.span .noRegister)

/-- A memory access whose base stands between parentheses. -/
def access (offset : Int) (start : Span) (base : Placed) (close : Span) :
    Except ParseError Operand :=
  match baseRegister base with
  | .ok r => .ok ⟨.access offset r, ⟨start.start, close.stop⟩⟩
  | .error e => .error e

/-- The operand phrase that begins with the token `t`, and the tokens after it. -/
def phrase (t : Placed) (rest : List Placed) : Except ParseError (Operand × List Placed) :=
  match t.token.integer?, rest with
  | some n, ⟨.openParen, _⟩ :: base :: ⟨.closeParen, close⟩ :: rest =>
    (access n t.span base close).map (·, rest)
  | some n, rest => .ok (⟨.integer n, t.span⟩, rest)
  | none, rest =>
    match t.token, rest with
    | .openParen, base :: ⟨.closeParen, close⟩ :: rest =>
      (access 0 t.span base close).map (·, rest)
    | .register r, rest => .ok (⟨.register r, t.span⟩, rest)
    | .identifier name, rest => .ok (⟨.name name, t.span⟩, rest)
    | .text value, rest => .ok (⟨.text value, t.span⟩, rest)
    | _, _ => .error (.atSpan t.span .unexpectedToken)

theorem length_rest_le_of_phrase {t : Placed} {rest : List Placed} {o : Operand}
    {rest' : List Placed} (h : phrase t rest = .ok (o, rest')) : rest'.length ≤ rest.length := by
  have map_ok {x : Except ParseError Operand} {r : List Placed}
      (hx : x.map (·, r) = .ok (o, rest')) : rest' = r := by
    cases x <;> simp_all [Except.map]
  unfold phrase at h
  split at h
  next => simp [map_ok h]; omega
  next => simp_all
  next =>
    split at h
    next => simp [map_ok h]; omega
    all_goals simp_all

/-- The tokens without the comma that they may begin with. -/
def skipComma : List Placed → List Placed
  | ⟨.comma, _⟩ :: rest => rest
  | rest => rest

theorem length_skipComma_le (ts : List Placed) : (skipComma ts).length ≤ ts.length := by
  unfold skipComma
  split <;> simp

/-- Appends to `done` the operands that make up the tokens. -/
def readFrom (done : Array Operand) : List Placed → Except ParseError (Array Operand)
  | [] => .ok done
  | t :: rest =>
    match _h : phrase t rest with
    | .ok (operand, rest') => readFrom (done.push operand) (skipComma rest')
    | .error e => .error e
termination_by ts => ts.length
decreasing_by
  have := length_rest_le_of_phrase ‹_›
  have := length_skipComma_le rest'
  simp only [List.length_cons]
  omega

def ofTokens (tokens : List Placed) : Except ParseError (List Operand) :=
  (readFrom #[] tokens).map Array.toList

def register (o : Operand) : Except ParseError Register :=
  match o.value with
  | .register r => .ok r
  | .name name => namedRegister name o.span
  | _ => .error (.atSpan o.span .noRegister)

def label (o : Operand) : Except ParseError Label :=
  match o.value with
  | .name name => .ok ⟨name, o.span.start⟩
  | _ => .error (.atSpan o.span .noLabel)

def integer (o : Operand) : Except ParseError Int :=
  match o.value with
  | .integer n => .ok n
  | _ => .error (.atSpan o.span .noInteger)

/-- The bits of a number, whether it was written with a sign or without. -/
def word (o : Operand) : Except ParseError Word :=
  o.integer.map Word.ofInt

/-- A shift amount counts modulo 32. -/
def shiftAmount (o : Operand) : Except ParseError (BitVec 5) :=
  o.integer.map (BitVec.ofInt 5)

def address (o : Operand) : Except ParseError Address :=
  match o.value with
  | .access offset base => .ok (.offset (Word.ofInt offset) base)
  | .name name => .ok (.label ⟨name, o.span.start⟩)
  | _ => .error (.atSpan o.span .noAddress)

def text (o : Operand) : Except ParseError String :=
  match o.value with
  | .text value => .ok value
  | _ => .error (.atSpan o.span .noText)

end Operand

end Mips
