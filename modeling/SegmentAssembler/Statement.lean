import SegmentAssembler.Mnemonic
import SegmentAssembler.Operand
import SegmentAssembler.DataType

/-!
# Statements

Once the segment is open, the words of a line alone decide what the line
says.  The first word is tried as a mnemonic, then as a directive, then as a
label with its colon; what is left is a name followed by the directive that
concerns it.
-/

namespace SegmentAssembler

/-- What a line says. -/
inductive Statement where
  | instruction (m : Mnemonic) (operands : List Text)
  | org (arguments : List Text)
  | offset (arguments : List Text)
  /-- The segment ends; its name may stand before the directive. -/
  | close (name : Option Text) (rest : List Text)
  | label (id : Text) (rest : List Text)
  | define (id : Text) (type : DataType) (values : List Text)
  /-- A directive where it cannot stand. -/
  | misplaced (directive : Directive)
  | unknown
deriving DecidableEq, Repr

namespace Statement

/-- The name in front of a final colon. -/
def labelName? (word : Text) : Option Text :=
  if word.getLast? = some ':' then some word.dropLast else none

/-- A name and the directive that follows it. -/
def ofNamed (name : Text) : List Text → Statement
  | [] => .unknown
  | word :: rest =>
    match Directive.ofName? word with
    | some .dw => .define name .word rest
    | some .db => .define name .byte rest
    | some .ends => .close (some name) rest
    | some .segment => .misplaced .segment
    | _ => .unknown

/-- A line that begins with a label or another name. -/
def ofLabelled (head : Text) (rest : List Text) : Statement :=
  match labelName? head with
  | some id => .label id rest
  | none => ofNamed head rest

/-- The statement that the words of a line make. -/
def ofWords (head : Text) (rest : List Text) : Statement :=
  match Mnemonic.ofName? head with
  | some m => .instruction m rest
  | none =>
    match Directive.ofName? head with
    | some .org => .org rest
    | some .offset => .offset rest
    | some .ends => .close none rest
    | some .segment => .misplaced .segment
    | some .dw => .misplaced .dw
    | some .db => .misplaced .db
    | _ => ofLabelled head rest

end Statement

end SegmentAssembler
