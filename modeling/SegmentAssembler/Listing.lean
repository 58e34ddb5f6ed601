import SegmentAssembler.Diagnostic.Report
import SegmentAssembler.Encoding.CodeText
import SegmentAssembler.SymbolTable
import SegmentAssembler.Source

/-!
# The listing

The listing shows every source line up to the end of the program with its
address and its code, then the table of names, then the diagnostics:

    number | address | code        | source line

Code that does not fit its column goes on in rows of its own below the line,
each with its address.  Both blocks at the end are left out when they are
empty, and each is set off by two empty rows.
-/

namespace SegmentAssembler

/-- What a listing shows. -/
structure Listing where
  lines : List Line
  /-- Addresses under line numbers. -/
  addresses : List (Nat × Nat)
  /-- Code under line numbers. -/
  hex : List (Nat × CodeText)
  names : SymbolTable
  segmentName : Text
  endLine : Option Nat
  report : Report

namespace Listing

/-! ### Source rows -/

/-- The row of a source line. -/
def sourceRow (address : Option Nat) (hex : Option CodeText) (line : Line) : Text :=
  let addressText := (address.map (Numeral.hexDigits 4)).getD []
  let code := (hex.bind fun h => h.rows.head?).getD []
  Text.padRight 3 (Numeral.decimal line.number) ++ " | ".toList
    ++ Text.padRight 4 addressText ++ " | ".toList
    ++ Text.padRight 12 code ++ "| ".toList ++ line.text

/-- A row that continues the code of a line. -/
def continuationRow (base step : Nat) (index : Nat) (row : Text) : Text :=
  " \t".toList ++ Numeral.hexAtLeast 4 (base + step * index) ++ "      ".toList ++ row

/-- The rows that continue the code of a line, if it has an address. -/
def continuationRows : Option Nat → Option CodeText → List Text
  | some base, some hex =>
    (hex.rows.drop 1).zipIdx 1 |>.map fun entry =>
      continuationRow base hex.step entry.2 entry.1
  | _, _ => []

/-- The rows of a source line. -/
def lineRows (l : Listing) (line : Line) : List Text :=
  let address := l.addresses.lookup line.number
  let hex := l.hex.lookup line.number
  sourceRow address hex line :: continuationRows address hex

/-- The source lines that are shown: those up to the end of the program. -/
def shownLines (l : Listing) : List Line :=
  match l.lines.findIdx? fun line => some line.number == l.endLine with
  | some index => l.lines.take (index + 1)
  | none => l.lines

/-- All rows of source lines. -/
def sourceRows (l : Listing) : List Text := l.shownLines.flatMap l.lineRows

/-! ### Names -/

/-- The row of a declared name. -/
def nameRow (segmentName : Text) (entry : Text × Symbol) : Text :=
  Text.padRight 16 entry.1 ++ Text.padRight 16 entry.2.kind.name
    ++ segmentName ++ ':' :: (Numeral.hexDigits 4 entry.2.address).map Char.toLower

/-- The heading of the names. -/
def nameHeading : Text :=
  Text.padRight 16 "Имя".toList ++ Text.padRight 16 "Тип".toList ++ "Значение".toList

/-- The block of names. -/
def nameRows (l : Listing) : List Text :=
  if l.names.isEmpty then []
  else [] :: [] :: "Таблица имён:".toList :: nameHeading
    :: l.names.entries.map (nameRow l.segmentName)

/-! ### Report -/

/-- The row of a diagnostic. -/
def diagnosticRow (title : Text) (line : Nat) (d : Diagnostic) : Text :=
  "| ".toList ++ title ++ " Строка ".toList ++ Numeral.decimal line ++ ": ".toList ++ d.message

/-- The rows of a log. -/
def logRows (title : Text) (log : LineLog) : List Text :=
  log.flatMap fun entry => entry.2.map (diagnosticRow title entry.1)

/-- The block of diagnostics: the errors, then the warnings. -/
def diagnosticRows (l : Listing) : List Text :=
  let rows := logRows "ОШИБКА".toList l.report.errorLines
    ++ logRows "ПРЕДУПРЕЖДЕНИЕ".toList l.report.warningLines
  if rows.isEmpty then [] else [] :: [] :: rows

/-! ### The whole -/

/-- The text of a listing.  There is no line feed after the last row. -/
def text (l : Listing) : Text :=
  ['\n'].intercalate l.sourceRows
    ++ (l.nameRows ++ l.diagnosticRows).flatMap fun row => '\n' :: row

end Listing

end SegmentAssembler
