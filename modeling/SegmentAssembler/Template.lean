import SegmentAssembler.Mnemonic
import SegmentAssembler.Operand

/-!
# Instruction templates

A template tells how one instruction with operands of given kinds is encoded:
its opcode, the direction and width bits that are shifted into the opcode from
the right, and fixed values for the fields of the second byte.  The opcode
table is exact: a mnemonic with any other combination of operand kinds is not
an instruction.
-/

namespace SegmentAssembler

/-- The fixed parts of an encoding.  An absent direction bit is not shifted in;
an absent field is filled from the operands or left zero. -/
structure Template where
  code : UInt8
  direction : Option UInt8
  wide : Bool
  mode : Option UInt8
  reg : Option UInt8
  rm : Option UInt8
deriving DecidableEq, Repr

/-- The opcode table. -/
def Template.lookup? :
    Mnemonic → Option Operand.Kind → Option Operand.Kind → Option Template
  | .mov, some .register, some .register => some ⟨0x22, some 1, true, some 3, none, none⟩
  | .mov, some .register, some .immediate => some ⟨0x63, none, true, some 3, some 0, none⟩
  | .mov, some .register, some .address => some ⟨0x22, some 1, true, some 0, none, some 6⟩
  | .mov, some .address, some .register => some ⟨0x22, some 0, true, some 0, none, some 6⟩
  | .sbb, some .register, some .register => some ⟨0x06, some 1, true, some 3, some 0, none⟩
  | .sbb, some .register, some .immediate => some ⟨0x40, none, true, some 3, some 0, none⟩
  | .sbb, some .register, some .address => some ⟨0x06, some 1, true, some 0, none, some 6⟩
  | .sbb, some .address, some .register => some ⟨0x06, some 0, true, some 0, none, some 6⟩
  | .mul, some .register, none => some ⟨0x7B, none, true, some 3, some 4, none⟩
  | .ja, some .displacement, none => some ⟨0x77, none, false, none, none, some 0⟩
  | .int, some .immediate, none => some ⟨0xCD, none, false, none, none, none⟩
  | _, _, _ => none

end SegmentAssembler
