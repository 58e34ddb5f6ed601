import SegmentAssembler.Text.Basic

/-!
# Mnemonics and directives

The reserved words of the source language.  Both kinds are recognised in
letters of either case, and neither may name a segment.
-/

namespace SegmentAssembler

/-- The instructions of the machine. -/
inductive Mnemonic where
  | mov | sbb | mul | ja | int
deriving DecidableEq, Repr

namespace Mnemonic

def all : List Mnemonic := [mov, sbb, mul, ja, int]

/-- The mnemonic in capital letters. -/
def name : Mnemonic → Text
  | mov => "MOV".toList
  | sbb => "SBB".toList
  | mul => "MUL".toList
  | ja => "JA".toList
  | int => "INT".toList

/-- The mnemonic that a word spells. -/
def ofName? (word : Text) : Option Mnemonic :=
  all.find? fun m => m.name == Text.asciiUpper word

/-- A jump takes the distance to a label instead of an address. -/
def isJump : Mnemonic → Bool
  | ja => true
  | _ => false

/-- A word names at most one mnemonic, and it does so by its capital letters. -/
theorem ofName?_eq_some_iff {word : Text} {m : Mnemonic} :
    ofName? word = some m ↔ Text.asciiUpper word = m.name := by
  constructor
  · intro h
    unfold ofName? at h
    have found := List.find?_some h
    exact (beq_iff_eq.mp found).symm
  · intro h
    rw [ofName?, h]
    cases m <;> decide

end Mnemonic

/-- The words that steer the assembler. -/
inductive Directive where
  | segment | org | offset | dw | db | ends | finish
deriving DecidableEq, Repr

namespace Directive

def all : List Directive := [segment, org, offset, dw, db, ends, finish]

/-- The directive in capital letters. -/
def name : Directive → Text
  | segment => "SEGMENT".toList
  | org => "ORG".toList
  | offset => "OFFSET".toList
  | dw => "DW".toList
  | db => "DB".toList
  | ends => "ENDS".toList
  | finish => "END".toList

/-- The directive that a word spells. -/
def ofName? (word : Text) : Option Directive :=
  all.find? fun d => d.name == Text.asciiUpper word

/-- A word names at most one directive, and it does so by its capital letters. -/
theorem ofName?_eq_some_iff {word : Text} {d : Directive} :
    ofName? word = some d ↔ Text.asciiUpper word = d.name := by
  constructor
  · intro h
    unfold ofName? at h
    have found := List.find?_some h
    exact (beq_iff_eq.mp found).symm
  · intro h
    rw [ofName?, h]
    cases d <;> decide

end Directive

/-- The word is a directive or a mnemonic. -/
def isKeyword (word : Text) : Bool :=
  (Directive.ofName? word).isSome || (Mnemonic.ofName? word).isSome

end SegmentAssembler
