import SegmentAssembler.Diagnostic.Report
import SegmentAssembler.Scan.Run

/-!
# The layout of a program

The result of the scan: which item stands on which line and at which address,
what the names stand for, where the segment starts and ends, and what was
found wrong.  The segment starts at its first item and the program is entered
at its first instruction.

The counter may have been moved back below the start of the segment; then the
segment has no length, which is reported on the last line of the program.
-/

namespace SegmentAssembler

/-- A program after the scan. -/
structure Layout where
  lines : List Line
  endLine : Option Nat
  records : List Record
deriving DecidableEq, Repr

namespace Layout

/-- Scan a source text. -/
def ofSource (source : Text) : Layout :=
  let lines := splitLines source
  ⟨lines, SegmentAssembler.endLine lines, State.run {} (programLines lines)⟩

/-- The state after the last line. -/
def final (l : Layout) : State := State.finish {} l.records

def names (l : Layout) : SymbolTable := l.final.names

def segmentName (l : Layout) : Text := l.final.segmentName

/-- The items under their lines, lines ascending. -/
def items (l : Layout) : List (Nat × Item) := l.records.filterMap Record.item?

/-- The addresses under their lines, lines ascending. -/
def addresses (l : Layout) : List (Nat × Nat) := l.records.filterMap Record.address?

/-- The address of the first record with an effect of the given kind. -/
def firstAddress (l : Layout) (p : Effect → Bool) : Nat :=
  match l.records.find? fun r => p r.verdict.effect with
  | some r => r.before.counter
  | none => 0

/-- The address of the first item. -/
def startAddress (l : Layout) : Nat := l.firstAddress fun e => e.item?.isSome

/-- The address of the first instruction. -/
def entryPoint (l : Layout) : Nat :=
  l.firstAddress fun
    | .collected _ _ => true
    | _ => false

/-- The distance from the start of the segment to the last value of the counter. -/
def extent (l : Layout) : Int := l.final.counter - l.startAddress

/-- The length of the segment. -/
def segmentLength (l : Layout) : Nat := l.extent.toNat

/-- The line on which the length of the segment is reported. -/
def lastLine (l : Layout) : Nat := l.endLine.getD l.lines.length

/-- The report on a segment without a length. -/
def lengthFindings (l : Layout) : List (Nat × Finding) :=
  if l.extent < 0 then [(l.lastLine, (Diagnostic.segmentLength l.extent).asError)] else []

/-- What the scan found, in the order in which it was found. -/
def findings (l : Layout) : List (Nat × Finding) :=
  l.records.flatMap Record.findings ++ l.lengthFindings

end Layout

end SegmentAssembler
