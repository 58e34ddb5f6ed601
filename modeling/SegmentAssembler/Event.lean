import SegmentAssembler.Diagnostic.Basic
import SegmentAssembler.Mnemonic

/-!
# Events and log lines

While it works, the assembler tells what it is doing in events.  Each has a
level, a place it comes from and a message, and some concern a source line.
A log shows the events up to a chosen level, one line each:

    level   place: message line=n

with the level filled up on the left to five characters.  A message cannot
steer the terminal it is shown on: control characters that could are written
out.
-/

namespace SegmentAssembler

/-- How much an event matters. -/
inductive Level where
  | error | warn | info | debug | trace
deriving DecidableEq, Repr

namespace Level

def all : List Level := [error, warn, info, debug, trace]

/-- The level as a number from one, the gravest, to five. -/
def rank : Level → Nat
  | error => 1
  | warn => 2
  | info => 3
  | debug => 4
  | trace => 5

def name : Level → Text
  | error => "ERROR".toList
  | warn => "WARN".toList
  | info => "INFO".toList
  | debug => "DEBUG".toList
  | trace => "TRACE".toList

/-- A whole number without a minus sign. -/
def number? : Text → Option Nat
  | '+' :: digits => Numeral.magnitude? 10 digits
  | digits => Numeral.magnitude? 10 digits

/-- The level that a word gives by its number or by its name. -/
def ofWord? (word : Text) : Option Level :=
  all.find? fun level =>
    number? word == some level.rank || level.name == Text.asciiUpper word

end Level

/-- Something that happens during an assembly. -/
inductive Event where
  | scanning
  | encoding
  | listing
  | found (line : Nat) (f : Finding)
  | opened (line : Nat) (segmentName : Text)
  | defined (line : Nat) (id : Text) (type : DataType) (count address : Nat)
  | collected (line : Nat) (m : Mnemonic) (address length : Nat)
  | laidOut (items names : Nat) (segmentName : Text) (start length : Nat)
  | assembling (path : Text)
  | written (bytes : Nat) (path : Text)
  | failed (reason : Text)
deriving DecidableEq, Repr

/-- A mnemonic with one capital letter. -/
def Mnemonic.title : Mnemonic → Text
  | mov => "Mov".toList
  | sbb => "Sbb".toList
  | mul => "Mul".toList
  | ja => "Ja".toList
  | int => "Int".toList

/-- A control character that may steer a terminal, written out. -/
def visibleChar (c : Char) : Text :=
  if c.toNat ∈ [0x07, 0x08, 0x0C, 0x1B, 0x7F] then
    "\\x".toList ++ (Numeral.hexDigits 2 c.toNat).map Char.toLower
  else if 0x80 ≤ c.toNat ∧ c.toNat ≤ 0x9F then
    "\\u\x7b".toList ++ (Numeral.hexDigits 2 c.toNat).map Char.toLower ++ "\x7d".toList
  else [c]

namespace Event

def level : Event → Level
  | scanning | encoding | listing => .trace
  | found _ _ | opened _ _ | defined .. | collected .. | laidOut .. => .debug
  | assembling _ | written _ _ => .info
  | failed _ => .error

/-- The part of the assembler that an event comes from. -/
def place : Event → Text
  | found _ _ => "segasm::error".toList
  | opened _ _ | defined .. | collected .. | laidOut .. => "segasm::parser".toList
  | _ => "segasm".toList

/-- The source line that an event concerns. -/
def line? : Event → Option Nat
  | found line _ | opened line _ | defined line .. | collected line .. => some line
  | _ => none

def message : Event → Text
  | scanning => "starting pass 1".toList
  | encoding => "starting pass 2".toList
  | listing => "rendering listing".toList
  | found _ ⟨.error, d⟩ => "error: ".toList ++ d.message
  | found _ ⟨.warning, d⟩ => "warning: ".toList ++ d.message
  | opened _ segmentName => "segment ".toList ++ segmentName ++ " opened".toList
  | defined _ id type count address =>
    id ++ ' ' :: type.name ++ " x".toList ++ Numeral.decimal count
      ++ " at ".toList ++ Numeral.hexDigits 4 address
  | collected _ m address length =>
    m.title ++ " at ".toList ++ Numeral.hexDigits 4 address
      ++ ", ".toList ++ Numeral.decimal length ++ " bytes".toList
  | laidOut items names segmentName start length =>
    "pass 1: ".toList ++ Numeral.decimal items ++ " items, ".toList ++ Numeral.decimal names
      ++ " names, segment ".toList ++ segmentName ++ " at ".toList
      ++ Numeral.hexDigits 4 start ++ '+' :: Numeral.hexDigits 4 length
  | assembling path => "assemble ".toList ++ path
  | written bytes path =>
    "object code: ".toList ++ Numeral.decimal bytes ++ " bytes -> ".toList ++ path
  | failed reason => reason

/-- The log line of an event. -/
def logLine (e : Event) : Text :=
  let line :=
    match e.line? with
    | some n => " line=".toList ++ Numeral.decimal n
    | none => []
  Text.padLeft 5 e.level.name ++ ' ' :: e.place ++ ": ".toList
    ++ e.message.flatMap visibleChar ++ line

/-- The event is shown in a log of the given level. -/
def isShown (limit : Level) (e : Event) : Bool := decide (e.level.rank ≤ limit.rank)

end Event

/-- The lines of the log of a sequence of events up to a level.  An event whose
message has line feeds takes several lines. -/
def logLines (limit : Level) (events : List Event) : List Text :=
  (events.filter (Event.isShown limit)).flatMap fun e => e.logLine.splitOn '\n'

end SegmentAssembler
