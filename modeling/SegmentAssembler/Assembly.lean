import SegmentAssembler.Event
import SegmentAssembler.Image
import SegmentAssembler.Listing
import SegmentAssembler.ObjectRecord

/-!
# Assembly

From a source text to a listing and, if nothing is wrong, an object record.
A blank source has nothing to assemble and gives no assembly at all.
-/

namespace SegmentAssembler

/-! ### What a layout amounts to -/

namespace Layout

/-- The listing of a program. -/
def listing (l : Layout) : Listing where
  lines := l.lines
  addresses := l.addresses
  hex := l.image.hex
  names := l.names
  segmentName := l.segmentName
  endLine := l.endLine
  report := l.report

/-- The object record of a program. -/
def objectRecord (l : Layout) : ObjectRecord where
  segmentName := l.segmentName
  segmentLength := UInt16.ofNat l.segmentLength
  startAddress := UInt16.ofNat l.startAddress
  body := l.image.body
  entryPoint := UInt16.ofNat l.entryPoint

end Layout

/-! ### Events -/

/-- The findings of a line as events. -/
def foundEvents (findings : List (Nat × Finding)) : List Event :=
  findings.map fun found => .found found.1 found.2

/-- The event of an effect that is worth telling. -/
def Record.progress? (r : Record) : Option Event :=
  match r.verdict.effect with
  | .opened name => some (.opened r.line.number name)
  | .defined id type values =>
    some (.defined r.line.number id type values.length r.before.counter)
  | .collected m i => some (.collected r.line.number m i.address i.length)
  | _ => none

/-- The events of a line: its findings, then its effect. -/
def Record.events (r : Record) : List Event := foundEvents r.findings ++ r.progress?.toList

/-- The event that closes the scan. -/
def Layout.summary (l : Layout) : Event :=
  .laidOut l.items.length l.names.size l.segmentName l.startAddress l.segmentLength

/-- All that happens in an assembly. -/
def Layout.events (l : Layout) : List Event :=
  [.scanning] ++ l.records.flatMap Record.events ++ foundEvents l.lengthFindings ++ [l.summary]
    ++ [.encoding] ++ foundEvents l.image.findings ++ [.listing]

/-! ### The assembly -/

/-- The results of an assembly. -/
structure Assembly where
  listing : Text
  /-- The object record, unless there are errors. -/
  objectBytes : Option (List UInt8)
  report : Report
  events : List Event

/-- The object record in binary digits. -/
def Assembly.objectText (c : Assembly) : Option Text := c.objectBytes.map binaryText

/-- The assembly of a scanned program. -/
def Assembly.ofLayout (l : Layout) : Assembly where
  listing := l.listing.text
  objectBytes := if l.report.hasErrors then none else some l.objectRecord.toBytes
  report := l.report
  events := l.events

/-- Assemble a source text. -/
def assemble? (source : Text) : Option Assembly :=
  if Text.isAllBlank source then none else some (.ofLayout (.ofSource source))

end SegmentAssembler
