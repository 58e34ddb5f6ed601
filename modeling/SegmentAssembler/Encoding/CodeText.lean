import SegmentAssembler.Numeral
import SegmentAssembler.DataType

/-!
# Bytes and their hexadecimal text

The bytes of words, least significant byte first, and the hexadecimal text
that the listing shows beside a line.  Long data runs over several rows, each
`step` bytes after the one before.
-/

namespace SegmentAssembler

/-- The two bytes of a word, the low one first. -/
def wordBytes (n : Nat) : List UInt8 := [UInt8.ofNat n, UInt8.ofNat (n / 256)]

/-- The bytes of a stored value. -/
def DataType.bytes : DataType → Nat → List UInt8
  | .byte, n => [UInt8.ofNat n]
  | .word, n => wordBytes n

/-- Two hexadecimal digits. -/
def hexByte (b : UInt8) : Text := Numeral.hexDigits 2 b.toNat

/-- Texts with a blank between neighbours. -/
def spaced (cells : List Text) : Text := [' '].intercalate cells

/-- The hexadecimal text of a line: its rows, and the distance in bytes from
one row to the next. -/
structure CodeText where
  rows : List Text
  step : Nat
deriving DecidableEq, Repr

/-- Text that fits one row. -/
def CodeText.single (row : Text) : CodeText := ⟨[row], 0⟩

/-- Encoded bytes with the text that shows them. -/
structure Encoded where
  bytes : List UInt8
  hex : CodeText
deriving DecidableEq, Repr

@[simp] theorem length_wordBytes (n : Nat) : (wordBytes n).length = 2 := rfl

/-- Two bytes are the bytes of the word that they make. -/
theorem wordBytes_toNat (low high : UInt8) :
    wordBytes (low.toNat + 256 * high.toNat) = [low, high] := by
  have hlow := low.toNat_lt
  have hhigh := high.toNat_lt
  have hfirst : UInt8.ofNat (low.toNat + 256 * high.toNat) = low := by
    apply UInt8.toNat_inj.mp
    rw [UInt8.toNat_ofNat']
    omega
  have hsecond : UInt8.ofNat ((low.toNat + 256 * high.toNat) / 256) = high := by
    apply UInt8.toNat_inj.mp
    rw [UInt8.toNat_ofNat']
    omega
  rw [wordBytes, hfirst, hsecond]

/-- A value takes the width of its type. -/
@[simp] theorem DataType.length_bytes (t : DataType) (n : Nat) :
    (t.bytes n).length = t.width := by
  cases t <;> rfl

end SegmentAssembler
