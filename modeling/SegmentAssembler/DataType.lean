import SegmentAssembler.Text.Basic

/-!
# Data types

Data is defined in bytes or in words.  A data type says how many bytes one
value takes and which numbers are accepted for it: signed and unsigned
readings share one range, so a byte accepts `-256 … 255` and a word
`-65536 … 65535`, and what is stored is the number modulo the width.
-/

namespace SegmentAssembler

/-- The type of one value of a data definition. -/
inductive DataType where
  | byte
  | word
deriving DecidableEq, Repr

namespace DataType

/-- Bytes taken by one value. -/
def width : DataType → Nat
  | byte => 1
  | word => 2

/-- One more than the greatest number that the type stores. -/
def modulus : DataType → Nat
  | byte => 256
  | word => 65536

/-- The numbers accepted for the type. -/
def contains (t : DataType) (v : Int) : Bool :=
  decide (-(t.modulus : Int) ≤ v ∧ v < t.modulus)

/-- The stored form of a number. -/
def store (t : DataType) (v : Int) : Nat := (v % t.modulus).toNat

/-- The name shown in listings and messages. -/
def name : DataType → Text
  | byte => "Byte".toList
  | word => "Word".toList

/-- A type takes every number from minus its modulus to one below its modulus. -/
theorem contains_iff (t : DataType) (v : Int) :
    t.contains v = true ↔ -(t.modulus : Int) ≤ v ∧ v < t.modulus := by
  simp [contains]

/-- What is stored of a value fits the type. -/
theorem store_lt (t : DataType) (v : Int) : t.store v < t.modulus := by
  cases t <;> simp only [store, modulus] <;> omega

end DataType

end SegmentAssembler
