import Mips.Diagnostic
import Mips.Text.Blank
import Mips.Text.Bytes

/-!
# Lines of a source

A source has one line more than it has newlines. A position is a byte offset; a newline belongs to
the line that it ends, and a position past the end counts as the line after the last one.
-/
namespace Mips

/-- A line without its newline, and the byte at which it begins. -/
structure Line where
  start : Nat
  text : List Char
  deriving DecidableEq

namespace Line

/-- The byte after the line, where its newline or the end of the source stands. -/
def stop (l : Line) : Nat :=
  l.start + Text.byteLength l.text

/-- White space that the line begins with. -/
def indentation (l : Line) : List Char :=
  l.text.takeWhile Text.isBlank

def trimmed (l : Line) : List Char :=
  ((l.text.dropWhile Text.isBlank).reverse.dropWhile Text.isBlank).reverse

/-- Where the trimmed line stands. A line of white space only has an empty span at its start. -/
def trimmedSpan (l : Line) : Span :=
  match l.trimmed with
  | [] => ⟨l.start, l.start⟩
  | text =>
    let start := l.start + Text.byteLength l.indentation
    ⟨start, start + Text.byteLength text⟩

end Line

namespace SourceText

/-- Appends to `done` the lines of a text, the first of which began at byte `start` with the
characters `line`, in reverse. -/
def linesFrom (done : Array Line) (start : Nat) (line : List Char) : List Char → Array Line
  | [] => done.push ⟨start, line.reverse⟩
  | c :: rest =>
    if c = '\n' then
      linesFrom (done.push ⟨start, line.reverse⟩) (start + Text.byteLength line + 1) [] rest
    else linesFrom done start (c :: line) rest

def lines (source : String) : Array Line :=
  linesFrom #[] 0 [] source.toList

def lineCount (source : String) : Nat :=
  (lines source).size

/-- Where a line stands, without white space at its ends. -/
def lineSpan? (source : String) (line : Nat) : Option Span :=
  (lines source)[line]?.map Line.trimmedSpan

def line? (source : String) (line : Nat) : Option String :=
  (lines source)[line]?.map fun l => .ofList l.trimmed

/-- The number of the line that a position is on. -/
def lineAt (source : String) (position : Nat) : Nat :=
  (lines source).countP fun l => l.stop < position

/-- The line of a position and the bytes that lie between its start and the position. -/
def lineAndColumn (source : String) (position : Nat) : Nat × Nat :=
  let line := lineAt source position
  let start := match line with
    | 0 => 0
    | before + 1 => ((lines source)[before]?.map fun l => l.stop + 1).getD 0
  (line, position - start)

end SourceText

end Mips
