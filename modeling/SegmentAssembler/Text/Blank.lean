import SegmentAssembler.Text.Basic

/-!
# Blank characters

The characters of the Unicode property `White_Space`, and trimming.  Source
lines lose their blank ends before anything else looks at them; inside a line
only some of these characters separate words (see `SegmentAssembler.Source`).
-/

namespace SegmentAssembler.Text

/-- The code points with the property `White_Space`, as inclusive ranges. -/
def blankRanges : List (Nat × Nat) :=
  [(0x09, 0x0D), (0x20, 0x20), (0x85, 0x85), (0xA0, 0xA0), (0x1680, 0x1680),
   (0x2000, 0x200A), (0x2028, 0x2029), (0x202F, 0x202F), (0x205F, 0x205F),
   (0x3000, 0x3000)]

/-- The character is white space. -/
def isBlank (c : Char) : Bool :=
  blankRanges.any fun r => decide (r.1 ≤ c.toNat ∧ c.toNat ≤ r.2)

/-- Drop the blanks at both ends. -/
def trim (t : Text) : Text :=
  ((t.dropWhile isBlank).reverse.dropWhile isBlank).reverse

/-- Nothing but blanks. -/
def isAllBlank (t : Text) : Bool := t.all isBlank

end SegmentAssembler.Text
