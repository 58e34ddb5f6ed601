import SegmentAssembler.Diagnostic.Basic
import SegmentAssembler.Encoding.CodeText
import SegmentAssembler.Item
import SegmentAssembler.SymbolTable

/-!
# Encoding of instructions

An instruction is encoded as

    opcode    second byte    tail

where the opcode is the template's code with its direction and width bits
shifted in from the right, the second byte holds either three fields or a
literal, and the tail is one word for an address or a number:

    mode 2 bits | reg 3 bits | rm 3 bits

The first operand decides which second byte there is and the second operand
completes it.  With direction 1 the first operand is the `reg` field and the
second the `rm` field, otherwise it is the other way round.  An operand that
cannot be encoded is reported; the first operand is looked at first.
-/

namespace SegmentAssembler

/-- The three fields of a second byte. -/
structure Fields where
  mode : UInt8 := 0
  reg : UInt8 := 0
  rm : UInt8 := 0
deriving DecidableEq, Repr

/-- The fields packed into a byte; each keeps as many low bits as it has room for. -/
def Fields.byte (f : Fields) : UInt8 := f.mode % 4 * 64 + f.reg % 8 * 8 + f.rm % 8

/-- The second byte of an instruction. -/
inductive OperandByte where
  | fields (f : Fields)
  | literal (b : UInt8)
deriving DecidableEq, Repr

def OperandByte.byte : OperandByte → UInt8
  | fields f => f.byte
  | literal b => b

/-- What follows the opcode: the second byte, and the word of the tail. -/
structure Parts where
  second : OperandByte
  tail : Option Nat := none
deriving DecidableEq, Repr

/-- The code with the direction and width bits of the template. -/
def Template.opcode (t : Template) : Nat :=
  let directed :=
    match t.direction with
    | some d => t.code.toNat * 2 ||| d.toNat
    | none => t.code.toNat
  if t.wide then directed * 2 + 1 else directed

/-- The address that a name stands for. -/
def SymbolTable.resolve (names : SymbolTable) (name : Text) : Except Diagnostic Nat :=
  match names.get? name with
  | some symbol => .ok symbol.address
  | none => .error (.undeclared name)

namespace Instruction

/-- The byte for the distance from the instruction to a label. -/
def distance (i : Instruction) (names : SymbolTable) (name : Text) : Except Diagnostic UInt8 :=
  match names.get? name with
  | none => .error (.undeclaredTarget name)
  | some symbol =>
    if symbol.kind ≠ .label then .error .targetNotLabel
    else
      let d : Int := symbol.address - i.address
      if DataType.byte.contains d then .ok (UInt8.ofNat (DataType.byte.store d))
      else .error (.displacementRange d .byte)

/-- Place the first operand. -/
def placeFirst (i : Instruction) (names : SymbolTable) : Operand → Except Diagnostic Parts
  | .register r =>
    let mode := i.template.mode.getD 0
    match i.template.direction with
    | some 1 => .ok ⟨.fields { mode, reg := r.index }, none⟩
    | some _ => .ok ⟨.fields { mode, rm := r.index }, none⟩
    | none => .ok ⟨.fields { mode, reg := i.template.reg.getD 0, rm := r.index }, none⟩
  | .address name =>
    match names.resolve name with
    | .error d => .error d
    | .ok address =>
      .ok ⟨.fields { mode := i.template.mode.getD 0, rm := i.template.rm.getD 0 }, some address⟩
  | .displacement name =>
    match i.distance names name with
    | .error d => .error d
    | .ok b => .ok ⟨.literal b, none⟩
  | .immediate v =>
    if i.op2.isSome then .error .immediateFirst
    else if DataType.byte.contains v then
      .ok ⟨.literal (UInt8.ofNat (DataType.byte.store v)), none⟩
    else .error (.outOfRange v .byte)

/-- Complete the parts with the second operand, if there is one. -/
def placeSecond (i : Instruction) (names : SymbolTable) (p : Parts) : Except Diagnostic Parts :=
  match i.op2, p.second with
  | some (.register r), .fields f =>
    match i.template.direction with
    | some 1 => .ok { p with second := .fields { f with rm := r.index } }
    | some _ => .ok { p with second := .fields { f with reg := r.index } }
    | none => .ok p
  | some (.address name), .fields f =>
    match names.resolve name with
    | .error d => .error d
    | .ok address =>
      .ok ⟨.fields { f with rm := i.template.rm.getD 0 }, some address⟩
  | some (.immediate v), _ =>
    if DataType.word.contains v then .ok { p with tail := some (DataType.word.store v) }
    else .error (.outOfRange v .word)
  | some _, _ => .error .invalidOperands
  | none, .fields f => .ok { p with second := .fields { f with reg := i.template.reg.getD f.reg } }
  | none, .literal _ => .ok p

/-- Opcode, second byte and tail in a row. -/
def join (t : Template) (p : Parts) : List UInt8 :=
  UInt8.ofNat t.opcode :: p.second.byte :: (p.tail.map wordBytes).getD []

/-- The bytes of an instruction, as many as its operands call for.  Without an
operand the code stands alone. -/
def plainBytes (i : Instruction) (names : SymbolTable) : Except Diagnostic (List UInt8) :=
  match i.op1 with
  | none => .ok [i.template.code]
  | some op1 =>
    match i.placeFirst names op1 with
    | .error d => .error d
    | .ok p =>
      match i.placeSecond names p with
      | .error d => .error d
      | .ok q => .ok (join i.template q)

/-- Cut or fill with zeros to a given length. -/
def resize (length : Nat) (bytes : List UInt8) : List UInt8 :=
  bytes.take length ++ List.replicate (length - bytes.length) 0

/-- The bytes of an instruction at the length that was reserved for it. -/
def bytes (i : Instruction) (names : SymbolTable) : Except Diagnostic (List UInt8) :=
  match i.op1 with
  | none => .ok [i.template.code]
  | some _ => (i.plainBytes names).map (resize i.length)

/-- The text of instruction bytes: the first two one by one, the next two as
one word.  Only these four are shown. -/
def hexOf : List UInt8 → Text
  | [] => []
  | [a] => hexByte a
  | [a, b] => spaced [hexByte a, hexByte b]
  | [a, b, c] => spaced [hexByte a, hexByte b, hexByte c]
  | a :: b :: low :: high :: _ =>
    spaced [hexByte a, hexByte b, Numeral.hexDigits 4 (low.toNat + 256 * high.toNat)]

/-- Encode an instruction. -/
def encode (i : Instruction) (names : SymbolTable) : Except Diagnostic Encoded :=
  (i.bytes names).map fun bs => ⟨bs, .single (hexOf bs)⟩

end Instruction

end SegmentAssembler
