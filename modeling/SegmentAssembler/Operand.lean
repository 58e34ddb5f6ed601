import SegmentAssembler.Numeral

/-!
# Registers, operands and identifiers

An operand of an instruction is a register, a name that stands for an address,
a number, or the target of a jump.  Which of the first three a word is depends
on the word alone (`Operand.ofWord`); a jump target is a name in the place
where a jump expects one.

A word is a number only if it begins like one: with a decimal digit, or with a
minus sign and a decimal digit.  So `0FFH` is a number and `FFH` a name.
-/

namespace SegmentAssembler

/-- The eight word registers, in the order of their field values. -/
inductive Register where
  | ax | cx | dx | bx | sp | bp | si | di
deriving DecidableEq, Repr

namespace Register

/-- All registers, each at the place of its field value. -/
def all : List Register := [ax, cx, dx, bx, sp, bp, si, di]

/-- The name of a register in capital letters. -/
def name : Register → Text
  | ax => "AX".toList
  | cx => "CX".toList
  | dx => "DX".toList
  | bx => "BX".toList
  | sp => "SP".toList
  | bp => "BP".toList
  | si => "SI".toList
  | di => "DI".toList

/-- The three-bit field value of a register. -/
def index : Register → UInt8
  | ax => 0
  | cx => 1
  | dx => 2
  | bx => 3
  | sp => 4
  | bp => 5
  | si => 6
  | di => 7

/-- The register that a word names, in letters of either case. -/
def ofName? (word : Text) : Option Register :=
  all.find? fun r => r.name == Text.asciiUpper word

/-- A word names at most one register, and it does so by its capital letters. -/
theorem ofName?_eq_some_iff {word : Text} {r : Register} :
    ofName? word = some r ↔ Text.asciiUpper word = r.name := by
  constructor
  · intro h
    unfold ofName? at h
    have found := List.find?_some h
    exact (beq_iff_eq.mp found).symm
  · intro h
    rw [ofName?, h]
    cases r <;> decide

end Register

/-- The four kinds of operand. -/
inductive Operand.Kind where
  | register
  | address
  | immediate
  | displacement
deriving DecidableEq, Repr

/-- An operand of an instruction.  Names are kept as they were typed. -/
inductive Operand where
  | register (r : Register)
  | address (name : Text)
  | immediate (v : Int)
  | displacement (name : Text)
deriving DecidableEq, Repr

namespace Operand

def kind : Operand → Operand.Kind
  | register _ => .register
  | address _ => .address
  | immediate _ => .immediate
  | displacement _ => .displacement

/-- A decimal digit. -/
def isDecimalDigit (c : Char) : Bool := Numeral.isDigit 10 c

/-- The word begins as a number does. -/
def startsNumber : Text → Bool
  | '-' :: c :: _ => isDecimalDigit c
  | c :: _ => isDecimalDigit c
  | [] => false

/-- The number a word denotes, or else the name that it is. -/
def numberOrName (word : Text) : Operand :=
  match Numeral.read? word with
  | some v => immediate v
  | none => address word

/-- Classify an operand word.  A character that stands alone is a digit or a
name; a longer word is tried as a number if it begins like one. -/
def ofWord (word : Text) : Operand :=
  match Register.ofName? word with
  | some r => register r
  | none =>
    match word with
    | [c] => if isDecimalDigit c then immediate (Numeral.digitValue c) else address [c]
    | word => if startsNumber word then numberOrName word else address word

/-- A character alone needs no rule of its own: a digit is the number that it
is also read as. -/
theorem ofWord_eq (word : Text) :
    ofWord word =
      match Register.ofName? word with
      | some r => register r
      | none => if startsNumber word then numberOrName word else address word := by
  unfold ofWord
  cases Register.ofName? word with
  | some r => rfl
  | none =>
    match word with
    | [] => rfl
    | c :: d :: rest => rfl
    | [c] =>
      have hstarts : startsNumber [c] = isDecimalDigit c := by simp [startsNumber]
      cases hdigit : isDecimalDigit c with
      | true => simp [hstarts, hdigit, numberOrName, Numeral.read?_digit hdigit]
      | false => simp [hstarts, hdigit]

end Operand

/-- A character that may begin a name. -/
def isNameStart (c : Char) : Bool := c.isAlpha || c == '_'

/-- A character that may continue a name. -/
def isNamePart (c : Char) : Bool := c.isAlphanum || c == '_' || c == '-'

/-- A name that the program may declare: an ASCII letter or underscore,
followed by ASCII letters, digits, underscores and hyphens. -/
def isName : Text → Bool
  | [] => false
  | c :: rest => isNameStart c && rest.all isNamePart

end SegmentAssembler
