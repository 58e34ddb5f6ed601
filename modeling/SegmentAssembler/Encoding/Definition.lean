import SegmentAssembler.Encoding.CodeText
import SegmentAssembler.Item

/-!
# Encoding of data definitions

Each value becomes one cell: its bytes in the object code and its hexadecimal
text in the listing.  An absent value takes zero bytes in the code and
question marks in the listing.  Rows of the listing hold four words or seven
bytes, and every row but the last ends in a continuation marker.
-/

namespace SegmentAssembler

namespace DataType

/-- The number of cells on one row of the listing. -/
def cellsPerRow : DataType → Nat
  | byte => 7
  | word => 4

/-- The sign that the data goes on in the next row. -/
def marker : DataType → Text
  | byte => "+".toList
  | word => " +".toList

/-- The bytes of a cell. -/
def cellBytes (t : DataType) (v : Option Int) : List UInt8 := t.bytes ((v.map t.store).getD 0)

/-- The text of a cell. -/
def cellText (t : DataType) : Option Int → Text
  | some v => Numeral.hexDigits (2 * t.width) (t.store v)
  | none => List.replicate (2 * t.width) '?'

end DataType

/-- Cut a list into `count` rows of `perRow` elements; the last may be shorter. -/
def cutRows {α : Type} (perRow : Nat) : (count : Nat) → List α → List (List α)
  | 0, _ => []
  | count + 1, cells => cells.take perRow :: cutRows perRow count (cells.drop perRow)

/-- The number of rows for `count` cells. -/
def rowCount (perRow count : Nat) : Nat := (count + perRow - 1) / perRow

/-- Append the marker to every row but the last. -/
def markRows (marker : Text) : List Text → List Text
  | [] => []
  | [row] => [row]
  | row :: next :: rest => (row ++ marker) :: markRows marker (next :: rest)

namespace Definition

/-- The bytes of a definition. -/
def bytes (d : Definition) : List UInt8 := d.values.flatMap d.type.cellBytes

/-- The cells of the listing, row by row. -/
def cellRows (d : Definition) : List (List Text) :=
  cutRows d.type.cellsPerRow (rowCount d.type.cellsPerRow d.values.length)
    (d.values.map d.type.cellText)

/-- The text of a definition. -/
def hex (d : Definition) : CodeText :=
  ⟨markRows d.type.marker (d.cellRows.map spaced), d.type.cellsPerRow * d.type.width⟩

/-- Encode a definition. -/
def encode (d : Definition) : Encoded := ⟨d.bytes, d.hex⟩

/-- A definition takes exactly the bytes that its size says. -/
theorem length_bytes (d : Definition) : d.bytes.length = d.size := by
  have general : ∀ values : List (Option Int),
      (values.flatMap d.type.cellBytes).length = d.type.width * values.length := by
    intro values
    induction values with
    | nil => simp
    | cons v rest ih =>
      rw [List.flatMap_cons, List.length_append, ih, List.length_cons, Nat.mul_succ]
      simp [DataType.cellBytes, Nat.add_comm]
  exact general d.values

end Definition

end SegmentAssembler
