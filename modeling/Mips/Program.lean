import Mips.Instr.Expansion
import Mips.Memory
import Mips.Text.Slice

/-!
# Programs

An assembled program holds a slot for each instruction, in source order and four bytes apart, the
first contents of the data segment, and the symbol table, by which labels are still resolved when
the program runs. It may keep a source text; an instruction is then shown as it stands there, and
in its canonical form otherwise.
-/
namespace Mips

/-- An instruction of a program, its machine code and where it stands in the source. -/
structure Slot where
  instr : Instr
  words : List MachineInstr
  span : Span
  deriving DecidableEq

structure Program where
  slots : Array Slot
  /-- The data segment before the first step. -/
  data : Memory
  symbols : SymbolTable
  source : Option String

namespace Program

def empty : Program :=
  ⟨#[], .empty, .empty, none⟩

/-- A program while its statements are laid out. -/
structure Layout where
  slots : Array Slot
  data : Memory
  /-- The address of the next instruction. -/
  pc : Word
  /-- The address of the next data. -/
  dataPc : Word

namespace Layout

def start : Layout :=
  ⟨#[], .empty, textBase, dataBase⟩

def slotAddress (index : Nat) : Word :=
  textBase + 4 * BitVec.ofNat 32 index

/-- Adds an instruction, which must come right behind the last one. -/
def addInstr (l : Layout) (symbols : SymbolTable) (i : Instr) (span : Span) :
    Except AssemblyError Layout :=
  if l.pc = slotAddress l.slots.size then
    match i.expand l.pc symbols with
    | .ok words => .ok { l with slots := l.slots.push ⟨i, words, span⟩, pc := l.pc + 4 }
    | .error e => .error e
  else
    match l.slots[(l.pc - textBase).toNat / 4]? with
    | some earlier => .error ⟨.slotTaken, .two earlier.span span⟩
    | none => .error (.atSpan span .slotTaken)

/-- Adds words, four bytes apart. -/
def addWords (l : Layout) : List Word → Layout
  | [] => l
  | value :: rest =>
    addWords { l with data := l.data.set l.dataPc value, dataPc := l.dataPc + 4 } rest

/-- Adds a text and its terminator, one byte per character. -/
def addText (l : Layout) (text : String) : Layout :=
  let (data, next) := l.data.writeText l.dataPc text
  { l with data := data, dataPc := next }

def addStatement (symbols : SymbolTable) (l : Layout) (s : Statement) :
    Except AssemblyError Layout :=
  match s.nucleus with
  | .instr i => l.addInstr symbols i s.span
  | .directive (.word values) => .ok (l.addWords values)
  | .directive (.asciiz text) => .ok (l.addText text)
  | .directive .text => .ok { l with pc := textBase }
  | .directive .data | .directive (.globl _) | .empty => .ok l

end Layout

/-- Assembles statements. If a text is given, instructions are shown as they stand in it. -/
def assemble (statements : List Statement) (source : Option String) :
    Except AssemblyError Program := do
  let symbols ← SymbolTable.ofStatements statements
  let layout ← statements.foldlM (Layout.addStatement symbols) .start
  return ⟨layout.slots, layout.data, symbols, source⟩

def size (p : Program) : Nat :=
  p.slots.size

/-- The number of the slot at an address, if one begins there. -/
def indexOf? (p : Program) (pc : Word) : Option Nat :=
  let offset := (pc - textBase).toNat
  if offset % 4 = 0 ∧ offset / 4 < p.size then some (offset / 4) else none

def slotAt? (p : Program) (pc : Word) : Option Slot :=
  (p.indexOf? pc).bind fun index => p.slots[index]?

/-- How an instruction of the program is shown. There may be no such piece of the text kept. -/
def slotText? (p : Program) (s : Slot) : Option String :=
  match p.source with
  | some source => Text.slice? source s.span.start s.span.stop
  | none => some s.instr.text

def instrText? (p : Program) (index : Nat) : Option String :=
  p.slots[index]?.bind p.slotText?

end Program

end Mips
