import SegmentAssembler.Numeral
import SegmentAssembler.DataType

/-!
# Report

What can be wrong with a line of the source, and how the assembler says so.
A diagnostic is a cause with its particulars; the wording is in `message`
alone.
-/

namespace SegmentAssembler

/-- Something worth telling about a source line. -/
inductive Diagnostic where
  /-- The segment has not been opened and the line does not open it. -/
  | segmentExpected
  | invalidSegmentId (id : Text)
  | segmentNameMismatch (name : Text)
  | unexpectedDirective (directive : Text)
  /-- A word after the last one that the line may hold. -/
  | unexpectedWord (word : Text)
  | outsideSegment
  | invalidInstruction
  | invalidLabelId (id : Text)
  | duplicateId (key : Text)
  | undeclared (name : Text)
  | undeclaredTarget (name : Text)
  | targetNotLabel
  | badExpression (word : Text)
  | outOfRange (value : Int) (type : DataType)
  | displacementRange (distance : Int) (type : DataType)
  /-- The address counter was moved past the limit for moves. -/
  | offsetLimit
  | addressOverflow
  | negativeAddress (address : Int)
  | segmentLength (length : Int)
  | invalidOperands
  | immediateFirst
  | missingOperand
deriving DecidableEq, Repr

/-- The wording of a diagnostic. -/
def Diagnostic.message : Diagnostic → Text
  | segmentExpected => "Неизвестная инструкция (ожидалась SEGMENT)".toList
  | invalidSegmentId id =>
    "Идентификатор сегмента может начинаться только с _, - или буквы: ".toList ++ id
  | segmentNameMismatch name => "Неверное имя сегмента: ".toList ++ name
  | unexpectedDirective directive => "Неожиданная директива: ".toList ++ directive
  | unexpectedWord word => "Неожиданное слово ".toList ++ word
  | outsideSegment => "Команда вне сегмента!".toList
  | invalidInstruction => "Недопустимая инструкция".toList
  | invalidLabelId id =>
    "Идентификатор метки может начинаться только с _, - или буквы: ".toList ++ id
  | duplicateId key => "Идентификатор уже определен:  ".toList ++ key
  | undeclared name => "Необъявленный идентификатор: ".toList ++ name
  | undeclaredTarget name => "Идентификатор не объявлен: ".toList ++ name
  | targetNotLabel => "Аргумент команды должен быть меткой!".toList
  | badExpression word => "Неверное выражение ".toList ++ word
  | outOfRange value type =>
    "Значение ".toList ++ Numeral.signedDecimal value ++ " превышает диапазон ".toList ++ type.name
  | displacementRange distance type =>
    "Смещение ".toList ++ Numeral.signedDecimal distance ++ " превышает диапазон ".toList
      ++ type.name
  | offsetLimit => "Значение СчАК превысило диапазон слова (25565)".toList
  | addressOverflow => "Значение СчАК превысило диапазон слова (65535)".toList
  | negativeAddress address => "Неверный адрес ".toList ++ Numeral.signedDecimal address
  | segmentLength length => "Длина сегмента вне диапазона: ".toList ++ Numeral.signedDecimal length
  | invalidOperands => "Неверные операнды команды!".toList
  | immediateFirst => "Недопустимые операнды!".toList
  | missingOperand => "Пропущен операнд - возможно 0".toList

/-- An error withholds the object code, a warning does not. -/
inductive Severity where
  | error
  | warning
deriving DecidableEq, Repr

/-- A diagnostic with its weight. -/
structure Finding where
  severity : Severity
  diagnostic : Diagnostic
deriving DecidableEq, Repr

/-- A diagnostic that counts as an error. -/
def Diagnostic.asError (d : Diagnostic) : Finding := ⟨.error, d⟩

/-- A diagnostic that counts as a warning. -/
def Diagnostic.asWarning (d : Diagnostic) : Finding := ⟨.warning, d⟩

end SegmentAssembler
