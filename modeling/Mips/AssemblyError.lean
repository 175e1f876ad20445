import Mips.Immediate

/-!
# What can be wrong with a program

The causes for which a list of statements is no program, and where they show.
-/
namespace Mips

/-- Why statements cannot be assembled. -/
inductive AssemblyError.Cause where
  /-- One label stands for two addresses. -/
  | labelTwice
  /-- An instruction follows a restart of the text segment that already holds instructions. -/
  | slotTaken
  | instrInData
  | dataInText
  /-- The data segment grows past the last address. -/
  | dataTooLong
  /-- A branch is too far from its label. -/
  | tooFar (error : FitError)
  | noSuchLabel
  deriving DecidableEq

structure AssemblyError where
  cause : AssemblyError.Cause
  places : Places
  deriving DecidableEq

namespace AssemblyError.Cause

def message : Cause → String
  | labelTwice => "label was defined multiple times"
  | slotTaken => "instruction overlaps an earlier instruction"
  | instrInData => "instruction in data segment"
  | dataInText => "data directive in text segment"
  | dataTooLong => "data segment exceeds memory"
  | tooFar e => e.message
  | noSuchLabel => "label could not be found"

def help : Cause → Option String
  | labelTwice => some "labels must be unique within a file, try renaming one of the labels"
  | slotTaken =>
    some ".text restarts at address 0, so keep all instructions in one .text block"
  | instrInData => some "try adding a .text directive before this instruction"
  | dataInText => some "try adding a .data directive before this directive"
  | dataTooLong => none
  | tooFar e => some e.help
  | noSuchLabel => some "try adding this label before an instruction or directive"

def category : Cause → Category
  | labelTwice | slotTaken | instrInData | dataInText | dataTooLong => .malformed
  | tooFar _ => .encoding
  | noSuchLabel => .unresolvedLabel

/-- The error beneath, if the cause is one of a field. -/
def beneath : Cause → Option String
  | tooFar e => some e.message
  | _ => none

end AssemblyError.Cause

namespace AssemblyError

def atSpan (span : Span) (cause : Cause) : AssemblyError :=
  ⟨cause, .one span⟩

instance : Diagnostic AssemblyError where
  message e := e.cause.message
  category e := e.cause.category
  help e := e.cause.help
  places e := some e.places
  cause e := e.cause.beneath

end AssemblyError

end Mips
