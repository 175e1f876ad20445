import Mips.Program
import Mips.SourceText
import Mips.Statement.Parser

/-!
# From source to program

Parsing and assembling in one go. What goes wrong is reported with the line in which it begins.
-/
namespace Mips

/-- The part of the work that failed. -/
inductive SourceError.Stage where
  | parsing (error : ParseError)
  | assembly (error : AssemblyError)
  deriving DecidableEq

namespace SourceError.Stage

def message : Stage → String
  | parsing e => Diagnostic.message e
  | assembly e => Diagnostic.message e

def category : Stage → Category
  | parsing e => Diagnostic.category e
  | assembly e => Diagnostic.category e

def help : Stage → Option String
  | parsing e => Diagnostic.help e
  | assembly e => Diagnostic.help e

def places : Stage → Places
  | parsing e => e.places
  | assembly e => e.places

end SourceError.Stage

/-- An error of a source, with the line on which its first place begins. -/
structure SourceError where
  stage : SourceError.Stage
  line : Nat
  lineText : String
  deriving DecidableEq

namespace SourceError

/-- Finds the line of an error in the source. -/
def locate (stage : Stage) (source : String) : SourceError :=
  let start := (stage.places.first?.map Span.start).getD 0
  let line := SourceText.lineAt source start
  ⟨stage, line, (SourceText.line? source line).getD ""⟩

/-- Lines are counted from one for the user. -/
def message (e : SourceError) : String :=
  e.stage.message ++ " (line " ++ Numeral.decimal (e.line + 1) ++ ": `" ++ e.lineText ++ "`)"

instance : Diagnostic SourceError where
  message := message
  category e := e.stage.category
  help e := e.stage.help
  places e := some e.stage.places
  cause e := some e.stage.message

end SourceError

namespace Program

def ofSource (source : String) : Except SourceError Program :=
  match Statement.parse source with
  | .error e => .error (.locate (.parsing e) source)
  | .ok statements =>
    match assemble statements (some source) with
    | .error e => .error (.locate (.assembly e) source)
    | .ok program => .ok program

end Program

end Mips
