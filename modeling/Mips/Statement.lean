import Mips.Instr
import Mips.Text.Quoted

/-!
# Statements

A statement is an instruction or a directive with the labels that stand before it, on its own line
or on earlier ones.
-/
namespace Mips

inductive Directive where
  | data
  /-- Switches to the text segment, at its first address. -/
  | text
  /-- Lays out words, four bytes each. -/
  | word (values : List Word)
  /-- Lays out characters, one byte each, and a terminator. -/
  | asciiz (value : String)
  /-- Exports a label. It has no effect. -/
  | globl (label : Label)
  deriving DecidableEq

namespace Directive

/-- The number of bytes that a directive lays out in the data segment. -/
def byteLength : Directive → Nat
  | data | text | globl _ => 0
  | word values => 4 * values.length
  | asciiz value => value.length + 1

def toText : Directive → String
  | data => ".data"
  | text => ".text"
  | word values => ".word " ++ String.intercalate ", " (values.map Word.signedText)
  | asciiz value => ".asciiz " ++ Text.quoted value
  | globl label => ".globl " ++ label.name

end Directive

/-- What a statement does. -/
inductive Nucleus where
  | instr (i : Instr)
  | directive (d : Directive)
  /-- Nothing: the labels at the end of a source with no statement after them. -/
  | empty
  deriving DecidableEq

def Nucleus.text : Nucleus → String
  | instr i => i.text
  | directive d => d.toText
  | empty => ""

structure Statement where
  labels : List Label
  nucleus : Nucleus
  /-- Where the nucleus stands in the source. -/
  span : Span
  deriving DecidableEq

def Statement.text (s : Statement) : String :=
  String.join (s.labels.map fun l => l.name ++ ": ") ++ s.nucleus.text

end Mips
