import SegmentAssembler.Text.Basic
import SegmentAssembler.Text.Blank
import SegmentAssembler.Text.Capital
import SegmentAssembler.Numeral
import SegmentAssembler.Source
import SegmentAssembler.DataType
import SegmentAssembler.Operand
import SegmentAssembler.Mnemonic
import SegmentAssembler.Template
import SegmentAssembler.SymbolTable
import SegmentAssembler.Diagnostic.Basic
import SegmentAssembler.Diagnostic.Report
import SegmentAssembler.Item
import SegmentAssembler.Encoding.CodeText
import SegmentAssembler.Encoding.Instruction
import SegmentAssembler.Encoding.Definition
import SegmentAssembler.ObjectRecord
import SegmentAssembler.Statement
import SegmentAssembler.Scan.State
import SegmentAssembler.Scan.Verdict
import SegmentAssembler.Scan.Run
import SegmentAssembler.Layout
import SegmentAssembler.Image
import SegmentAssembler.Event
import SegmentAssembler.Listing
import SegmentAssembler.Assembly
import SegmentAssembler.Command.Options
import SegmentAssembler.Command.FileSystem
import SegmentAssembler.Command.Session
import SegmentAssembler.Main
import SegmentAssembler.Proofs.Admission
import SegmentAssembler.Proofs.InstructionForm
import SegmentAssembler.Proofs.RunRecords
import SegmentAssembler.Proofs.SizeAgreement
import SegmentAssembler.Proofs.AddressAccounting
import SegmentAssembler.Proofs.Declarations
import SegmentAssembler.Proofs.NameResolution
import SegmentAssembler.Proofs.InstructionDecoding
import SegmentAssembler.Proofs.CleanVerdicts
import SegmentAssembler.Proofs.NameLetters
import SegmentAssembler.Proofs.StatementForms
import SegmentAssembler.Proofs.StaticRules
import SegmentAssembler.Proofs.SourceEditing
import SegmentAssembler.Proofs.RejectedLines
import SegmentAssembler.Proofs.TableConsistency
import SegmentAssembler.Proofs.ShiftedRuns
import SegmentAssembler.Proofs.Relocation
import SegmentAssembler.Proofs.Continuation
import SegmentAssembler.Proofs.EndOfProgram
import SegmentAssembler.Proofs.RecordReading
import SegmentAssembler.Proofs.HexReading
import SegmentAssembler.Proofs.Respelling
import SegmentAssembler.Proofs.SpelledRuns
import SegmentAssembler.Proofs.LetterCase
import SegmentAssembler.Proofs.ListingRows
import SegmentAssembler.Proofs.EncodingFaults
import SegmentAssembler.Proofs.WordRewriting
import SegmentAssembler.Proofs.Renaming
import SegmentAssembler.Proofs.Spacing
import SegmentAssembler.Proofs.StoredFiles
import SegmentAssembler.Proofs.Deliveries
import SegmentAssembler.Proofs.DataRows
import SegmentAssembler.Proofs.AddressBounds
import SegmentAssembler.Proofs.NumeralGrammar
import SegmentAssembler.Proofs.OperandClasses
import SegmentAssembler.Proofs.NameBinding
import SegmentAssembler.Proofs.CapitalForms
import SegmentAssembler.Proofs.FirstDeclarations
import SegmentAssembler.Proofs.Lexemes
import SegmentAssembler.Proofs.RecordedCalls
