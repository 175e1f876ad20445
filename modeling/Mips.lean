import Mips.AssemblyError
import Mips.Changes
import Mips.Console
import Mips.Datapath.Alu
import Mips.Datapath.Control
import Mips.Datapath.Route
import Mips.Diagnostic
import Mips.Immediate
import Mips.Instr
import Mips.Instr.Expansion
import Mips.Machine
import Mips.Machine.Run
import Mips.Machine.Step
import Mips.MachineInstr
import Mips.MachineInstr.Encoding
import Mips.Memory
import Mips.Mnemonic
import Mips.Operand
import Mips.ParseError
import Mips.Program
import Mips.Program.Listing
import Mips.Program.Source
import Mips.Proofs.Acceptance
import Mips.Proofs.BoundedRuns
import Mips.Proofs.CanonicalLines
import Mips.Proofs.CanonicalText
import Mips.Proofs.CanonicalTokens
import Mips.Proofs.CaseFreedom
import Mips.Proofs.Channels
import Mips.Proofs.ConsoleHistory
import Mips.Proofs.ControlFlow
import Mips.Proofs.DataImage
import Mips.Proofs.Decoding
import Mips.Proofs.Encoding
import Mips.Proofs.Endings
import Mips.Proofs.ErrorPlaces
import Mips.Proofs.Execute
import Mips.Proofs.Expansion
import Mips.Proofs.Faults
import Mips.Proofs.Folds
import Mips.Proofs.ImmediateRanges
import Mips.Proofs.InstructionSet
import Mips.Proofs.IntegerLiterals
import Mips.Proofs.KeptTexts
import Mips.Proofs.LabelDefinitions
import Mips.Proofs.Layout
import Mips.Proofs.LetterCase
import Mips.Proofs.Lexing
import Mips.Proofs.LineComposition
import Mips.Proofs.LineQueries
import Mips.Proofs.Lines
import Mips.Proofs.Listings
import Mips.Proofs.Literals
import Mips.Proofs.LowerCase
import Mips.Proofs.MachineCode
import Mips.Proofs.Magnitudes
import Mips.Proofs.MemoryBlocks
import Mips.Proofs.MemoryText
import Mips.Proofs.Noted
import Mips.Proofs.Numerals
import Mips.Proofs.OperandGrammar
import Mips.Proofs.Outcome
import Mips.Proofs.ParseErrors
import Mips.Proofs.Pieces
import Mips.Proofs.Positions
import Mips.Proofs.Printing
import Mips.Proofs.Recasing
import Mips.Proofs.Reformatting
import Mips.Proofs.RegisterNames
import Mips.Proofs.Relocation
import Mips.Proofs.Runs
import Mips.Proofs.SessionHistory
import Mips.Proofs.SessionIds
import Mips.Proofs.SessionTrace
import Mips.Proofs.SignalFrame
import Mips.Proofs.Signatures
import Mips.Proofs.Sinks
import Mips.Proofs.SourceLines
import Mips.Proofs.Spelling
import Mips.Proofs.StoredTexts
import Mips.Proofs.Stores
import Mips.Proofs.SymbolLayout
import Mips.Proofs.Targets
import Mips.Proofs.Tiling
import Mips.Proofs.TokenLines
import Mips.Proofs.TokenTexts
import Mips.Register
import Mips.RegisterFile
import Mips.Session
import Mips.Session.Call
import Mips.Session.Id
import Mips.Session.Store
import Mips.SourceText
import Mips.Statement
import Mips.Statement.Parser
import Mips.SymbolTable
import Mips.Text.Blank
import Mips.Text.Bytes
import Mips.Text.Numeral
import Mips.Text.Padding
import Mips.Text.Printable
import Mips.Text.Quoted
import Mips.Text.Ranges
import Mips.Text.Slice
import Mips.Text.WordChar
import Mips.Token
import Mips.Token.Lexer
import Mips.Word
