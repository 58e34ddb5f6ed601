import SegmentAssembler.Encoding.Definition
import SegmentAssembler.Encoding.Instruction
import SegmentAssembler.Layout

/-!
# The image of a program

Every item of a layout encoded, now that all names are known.  An item that
cannot be encoded contributes no bytes and no text but an error on its line.
-/

namespace SegmentAssembler

/-- Encode an item. -/
def Item.encode (names : SymbolTable) : Item → Except Diagnostic Encoded
  | .instruction i => i.encode names
  | .data d => .ok d.encode

/-- The encoded items under their lines, lines ascending. -/
structure Image where
  results : List (Nat × Except Diagnostic Encoded)

namespace Image

/-- Encode the items of a program. -/
def ofItems (names : SymbolTable) (items : List (Nat × Item)) : Image :=
  ⟨items.map fun entry => (entry.1, entry.2.encode names)⟩

/-- The items that were encoded. -/
def encoded (image : Image) : List (Nat × Encoded) :=
  image.results.filterMap fun entry =>
    match entry.2 with
    | .ok e => some (entry.1, e)
    | .error _ => none

/-- The code of the program. -/
def body (image : Image) : List UInt8 := image.encoded.flatMap fun entry => entry.2.bytes

/-- The hexadecimal text under its lines. -/
def hex (image : Image) : List (Nat × CodeText) :=
  image.encoded.map fun entry => (entry.1, entry.2.hex)

/-- What could not be encoded. -/
def findings (image : Image) : List (Nat × Finding) :=
  image.results.filterMap fun entry =>
    match entry.2 with
    | .ok _ => none
    | .error d => some (entry.1, d.asError)

end Image

/-- The image of a layout. -/
def Layout.image (l : Layout) : Image := .ofItems l.names l.items

/-- What is found in a program altogether: first by the scan, then in encoding. -/
def Layout.report (l : Layout) : Report := .ofFindings (l.findings ++ l.image.findings)

end SegmentAssembler
