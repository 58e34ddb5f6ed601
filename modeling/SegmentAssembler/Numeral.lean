import SegmentAssembler.Text.Basic

/-!
# Numerals

How numbers are read from the source and how they are written to the listing.

A numeral of the source is an optional sign followed by at least one digit:

    12    +12    -12          decimal
    1Ah   +1Ah   -1Ah         hexadecimal, marked by a final `h` of either case

It counts only if its value is a signed 32-bit number; everything else is not
a numeral (`read?` gives `none`).

The listing writes decimal line numbers, hexadecimal addresses of at least
four digits and hexadecimal cells of a fixed width; the object text writes
bytes as binary digits without leading zeros.
-/

namespace SegmentAssembler.Numeral

/-! ### Reading -/

/-- The value of a digit, where letters of either case continue the count at
ten.  A character that is no digit in base sixteen has the value sixteen. -/
def digitValue (c : Char) : Nat :=
  if '0' ≤ c ∧ c ≤ '9' then c.toNat - '0'.toNat
  else if 'A' ≤ c ∧ c ≤ 'F' then c.toNat - 'A'.toNat + 10
  else if 'a' ≤ c ∧ c ≤ 'f' then c.toNat - 'a'.toNat + 10
  else 16

/-- A digit of the base, which is at most sixteen. -/
def isDigit (base : Nat) (c : Char) : Bool := decide (digitValue c < base)

/-- The number that a sequence of digits denotes, most significant digit first. -/
def value (base : Nat) (digits : Text) : Nat :=
  digits.foldl (fun n c => base * n + digitValue c) 0

/-- Read one or more digits and nothing else. -/
def magnitude? (base : Nat) (digits : Text) : Option Nat :=
  if digits ≠ [] ∧ digits.all (isDigit base) = true then some (value base digits) else none

/-- The numbers that fit a signed 32-bit word. -/
def fits (v : Int) : Bool := decide (-2147483648 ≤ v ∧ v ≤ 2147483647)

/-- Read an optional sign and the digits after it, within 32 bits. -/
def signed? (base : Nat) : Text → Option Int
  | '-' :: digits => ((magnitude? base digits).map fun n => -(n : Int)).filter fits
  | '+' :: digits => ((magnitude? base digits).map fun n => (n : Int)).filter fits
  | digits => ((magnitude? base digits).map fun n => (n : Int)).filter fits

/-- A final `h` of either case marks a hexadecimal numeral. -/
def isHex (t : Text) : Bool := t.getLast? == some 'H' || t.getLast? == some 'h'

/-- Read a numeral of the source. -/
def read? (t : Text) : Option Int :=
  if isHex t then signed? 16 t.dropLast else signed? 10 t

/-- A decimal digit alone is read as its value. -/
theorem read?_digit {c : Char} (h : isDigit 10 c = true) : read? [c] = some (digitValue c : Int) := by
  have hother : ∀ d : Char, isDigit 10 d = false → c ≠ d := by
    intro d hd heq
    rw [← heq, h] at hd
    cases hd
  have hmark : isHex [c] = false := by
    simp [isHex, hother 'H' (by decide), hother 'h' (by decide)]
  have hvalue : digitValue c < 10 := of_decide_eq_true h
  have hfits : fits (digitValue c) = true := by
    simp only [fits, decide_eq_true_eq]
    omega
  have hsigned : signed? 10 [c] = ((magnitude? 10 [c]).map fun n => (n : Int)).filter fits := by
    simp [signed?, hother '-' (by decide), hother '+' (by decide)]
  simp [read?, hmark, hsigned, magnitude?, h, value, hfits]

/-! ### Writing -/

/-- The digit of a value below sixteen, with capital letters. -/
def hexDigit (n : Nat) : Char :=
  if n < 10 then Char.ofNat ('0'.toNat + n) else Char.ofNat ('A'.toNat + (n - 10))

/-- Exactly `width` hexadecimal digits, the lowest ones of the number. -/
def hexDigits : Nat → Nat → Text
  | 0, _ => []
  | width + 1, n => hexDigits width (n / 16) ++ [hexDigit (n % 16)]

/-- All hexadecimal digits of the number, and at least `width` of them. -/
def hexAtLeast (width n : Nat) : Text := hexDigits (max width (n.log2 / 4 + 1)) n

/-- Decimal digits without leading zeros. -/
def decimal (n : Nat) : Text := Nat.toDigits 10 n

/-- Decimal digits after a minus sign for negative numbers. -/
def signedDecimal : Int → Text
  | .ofNat n => decimal n
  | .negSucc n => '-' :: decimal (n + 1)

/-- Binary digits without leading zeros. -/
def binary (n : Nat) : Text := Nat.toDigits 2 n

/-- The digits are as many as were asked for, however large the number is. -/
@[simp] theorem length_hexDigits (width n : Nat) : (hexDigits width n).length = width := by
  induction width generalizing n with
  | zero => rfl
  | succ width ih => simp [hexDigits, ih]

end SegmentAssembler.Numeral
