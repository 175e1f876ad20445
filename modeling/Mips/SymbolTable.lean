import Mips.AssemblyError
import Mips.Statement
import Std.Data.ExtTreeMap

/-!
# The symbol table

Each label stands for the address at which the statement after it lies. Instructions take four
bytes each in the text segment, whatever they expand to, and every `.text` starts again at its
first address; data directives take their bytes in the data segment, without padding. A label may
be defined again at the address that it already has, and the first definition is kept.
-/
namespace Mips

/-- The address of the first instruction. -/
def textBase : Word := 0

/-- The address of the first byte of data. -/
def dataBase : Word := 0x10010000

inductive Segment where
  | text
  | data
  deriving DecidableEq

structure Symbol where
  address : Word
  /-- Where its first definition begins in the source. -/
  start : Nat
  segment : Segment
  deriving DecidableEq

/-- Where a symbol with the given name is defined. -/
def Symbol.span (s : Symbol) (name : String) : Span :=
  ⟨s.start, s.start + name.utf8ByteSize⟩

structure SymbolTable where
  symbols : Std.ExtTreeMap String Symbol
  deriving Inhabited

namespace SymbolTable

def empty : SymbolTable := ⟨∅⟩

def find? (t : SymbolTable) (name : String) : Option Symbol :=
  t.symbols[name]?

def address? (t : SymbolTable) (name : String) : Option Word :=
  (t.find? name).map Symbol.address

/-- All labels in ascending order of their names. -/
def toList (t : SymbolTable) : List (String × Symbol) :=
  t.symbols.toList

/-- The label at an address of the text segment whose definition comes first in the source. -/
def labelAt? (t : SymbolTable) (address : Word) : Option String :=
  let here := t.toList.filter fun entry =>
    entry.2.segment = .text && entry.2.address = address
  (here.foldl
    (fun best entry => match best with
      | none => some entry
      | some b => if entry.2.start < b.2.start then some entry else some b)
    none).map Prod.fst

/-- Where the next statement lies. -/
structure Cursor where
  segment : Segment
  /-- The next address of the text segment. -/
  pc : Word
  /-- The next address of the data segment, of which there may be none left. -/
  data : Nat
  deriving DecidableEq

namespace Cursor

def start : Cursor :=
  ⟨.text, textBase, dataBase.toNat⟩

def address (c : Cursor) : Word :=
  match c.segment with
  | .text => c.pc
  | .data => BitVec.ofNat 32 c.data

def layOut (c : Cursor) (bytes : Nat) (span : Span) : Except AssemblyError Cursor :=
  match c.segment with
  | .text => .error (.atSpan span .dataInText)
  | .data =>
    if c.data + bytes < 1 <<< 32 then .ok { c with data := c.data + bytes }
    else .error (.atSpan span .dataTooLong)

/-- Moves behind what a statement does. -/
def advance (c : Cursor) (s : Statement) : Except AssemblyError Cursor :=
  match s.nucleus with
  | .directive .data => .ok { c with segment := .data }
  | .directive .text => .ok { c with segment := .text, pc := textBase }
  | .directive (.globl _) | .empty => .ok c
  | .directive d => c.layOut d.byteLength s.span
  | .instr _ =>
    match c.segment with
    | .text => .ok { c with pc := c.pc + 4 }
    | .data => .error (.atSpan s.span .instrInData)

end Cursor

/-- Defines a label where the cursor stands. -/
def define (t : SymbolTable) (c : Cursor) (label : Label) : Except AssemblyError SymbolTable :=
  match t.find? label.name with
  | some symbol =>
    if symbol.address = c.address then .ok t
    else .error ⟨.labelTwice, .two (symbol.span label.name) label.span⟩
  | none => .ok ⟨t.symbols.insert label.name ⟨c.address, label.start, c.segment⟩⟩

/-- Defines the labels of a statement, then moves behind it. -/
def addStatement (state : SymbolTable × Cursor) (s : Statement) :
    Except AssemblyError (SymbolTable × Cursor) := do
  let (table, cursor) := state
  let table ← s.labels.foldlM (fun t label => t.define cursor label) table
  return (table, ← cursor.advance s)

def ofStatements (statements : List Statement) : Except AssemblyError SymbolTable := do
  let (table, _) ← statements.foldlM addStatement (empty, .start)
  return table

end SymbolTable

end Mips
