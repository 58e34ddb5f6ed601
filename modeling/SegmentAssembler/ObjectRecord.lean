import SegmentAssembler.Encoding.CodeText

/-!
# The object record

The assembled program as one sequence of bytes:

    48  name …  00  length      header: segment name and length
    54  start   body …          text: start address and code
    45  entry                   end: entry point

Words have their low byte first, and the name is in UTF-8.  The record can
also be written as text, each byte in binary digits without leading zeros.
-/

namespace SegmentAssembler

/-- The contents of an object record. -/
structure ObjectRecord where
  segmentName : Text
  segmentLength : UInt16
  startAddress : UInt16
  body : List UInt8
  entryPoint : UInt16
deriving DecidableEq, Repr

namespace ObjectRecord

/-- The byte that opens the header. -/
def headerMark : UInt8 := 0x48

/-- The byte that opens the text. -/
def textMark : UInt8 := 0x54

/-- The byte that opens the end. -/
def endMark : UInt8 := 0x45

/-- The bytes of a record. -/
def toBytes (r : ObjectRecord) : List UInt8 :=
  headerMark :: Text.utf8 r.segmentName ++ 0 :: wordBytes r.segmentLength.toNat
    ++ textMark :: wordBytes r.startAddress.toNat ++ r.body
    ++ endMark :: wordBytes r.entryPoint.toNat

end ObjectRecord

/-- Bytes as binary digits, without separators. -/
def binaryText (bytes : List UInt8) : Text := bytes.flatMap fun b => Numeral.binary b.toNat

end SegmentAssembler
