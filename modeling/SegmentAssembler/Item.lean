import SegmentAssembler.Template
import SegmentAssembler.DataType

/-!
# Items: what a program is made of

An accepted line contributes an instruction or a data definition.  Both know
how many bytes they take before they are encoded: the size of an instruction
follows from the kinds of its operands, the size of a definition from the
number and type of its values.
-/

namespace SegmentAssembler

/-- An instruction at its address, with the template that encodes it. -/
structure Instruction where
  template : Template
  op1 : Option Operand
  op2 : Option Operand
  address : Nat
  length : Nat
deriving DecidableEq, Repr

/-- Named data.  An absent value reserves space without a content. -/
structure Definition where
  id : Text
  type : DataType
  values : List (Option Int)
deriving DecidableEq, Repr

/-- The number of bytes that operands of these kinds call for: an opcode, a
second byte if there is an operand, and a word for an address or for a number
beside a register. -/
def lengthOfKinds : Option Operand.Kind → Option Operand.Kind → Nat
  | none, _ => 1
  | some .address, none => 4
  | some _, none => 2
  | some a, some b =>
    2 + (if a = .register ∧ b = .immediate then 2 else 0)
      + (if a = .address ∨ b = .address then 2 else 0)

/-- The number of bytes of an instruction with these operands. -/
def Instruction.lengthOf (op1 op2 : Option Operand) : Nat :=
  lengthOfKinds (op1.map Operand.kind) (op2.map Operand.kind)

/-- The number of bytes of a definition. -/
def Definition.size (d : Definition) : Nat := d.type.width * d.values.length

/-- An item of the program. -/
inductive Item where
  | instruction (i : Instruction)
  | data (d : Definition)
deriving DecidableEq, Repr

/-- The number of bytes that an item takes. -/
def Item.size : Item → Nat
  | .instruction i => i.length
  | .data d => d.size

end SegmentAssembler
