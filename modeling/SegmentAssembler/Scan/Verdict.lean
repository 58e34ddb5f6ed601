import SegmentAssembler.Diagnostic.Basic
import SegmentAssembler.Scan.State
import SegmentAssembler.Source
import SegmentAssembler.Statement

/-!
# The verdict on a line

In a given state, a line either has an effect or is rejected, and there may be
findings to report in both cases.  Judging a line changes nothing; carrying
out the effect (`State.apply`) cannot fail.

The checks of a line are made in a fixed order and most of them end the
judgement: the segment has to be open, the name has to be one that may be
declared, and so on.  A word too many and a faulty value are reported without
rejecting the line.  An effect never takes the counter past `topAddress`.
-/

namespace SegmentAssembler

/-- What there is to report about a line, and what the line does. -/
structure Verdict where
  findings : List Finding
  effect : Effect
deriving DecidableEq, Repr

namespace Verdict

/-- Reject the line for one reason. -/
def reject (d : Diagnostic) : Verdict := ⟨[d.asError], .rejected⟩

/-- Put findings in front of a verdict. -/
def after (findings : List Finding) (v : Verdict) : Verdict :=
  { v with findings := findings ++ v.findings }

/-- Accept the line without a finding. -/
def accept (e : Effect) : Verdict := ⟨[], e⟩

@[simp] theorem effect_reject (d : Diagnostic) : (reject d).effect = .rejected := rfl

@[simp] theorem effect_after (findings : List Finding) (v : Verdict) :
    (after findings v).effect = v.effect := rfl

@[simp] theorem effect_accept (e : Effect) : (accept e).effect = e := rfl

end Verdict

/-- The first of the words that the line has no room for. -/
def surplus : List Text → List Finding
  | [] => []
  | word :: _ => [(Diagnostic.unexpectedWord word).asError]

/-! ### Numbers on a line -/

/-- The number that a directive is given: a word value. -/
def directiveNumber (word : Text) : Except Diagnostic Int :=
  match Numeral.read? word with
  | none => .error (.badExpression word)
  | some v => if DataType.word.contains v then .ok v else .error (.outOfRange v .word)

/-- A value of a definition.  A question mark leaves it open. -/
def definedValue (type : DataType) (word : Text) : Except Diagnostic (Option Int) :=
  if word = ['?'] then .ok none
  else
    match Numeral.read? word with
    | none => .error (.badExpression word)
    | some v => if type.contains v then .ok (some v) else .error (.outOfRange v type)

/-- The values of a definition.  A faulty value is left open, and a definition
without values has the value zero. -/
def definedValues (type : DataType) : List Text → List (Option Int)
  | [] => [some 0]
  | words => words.map fun word =>
    match definedValue type word with
    | .ok v => v
    | .error _ => none

/-- What is wrong with the values of a definition. -/
def valueFindings (type : DataType) : List Text → List Finding
  | [] => [Diagnostic.missingOperand.asWarning]
  | words => words.filterMap fun word =>
    match definedValue type word with
    | .ok _ => none
    | .error d => some d.asError

/-! ### Operands on a line -/

/-- A name that stands alone after a jump is the target of the jump. -/
def asTarget (m : Mnemonic) (op1 op2 : Option Operand) : Option Operand :=
  match op1, op2 with
  | some (.address name), none => if m.isJump then some (.displacement name) else op1
  | _, _ => op1

namespace State

/-! ### The segment -/

/-- The segment is open. -/
def isOpen (s : State) : Bool := s.phase == .opened

/-- What may be said only inside the segment. -/
def inside (s : State) (v : Verdict) : Verdict :=
  if s.isOpen then v else .reject .outsideSegment

/-- The line that opens the segment.  An invalid name is reported, and the
segment is opened under the default name. -/
def judgeOpening (s : State) (id : Text) : List Text → Verdict
  | [] => .reject .segmentExpected
  | word :: rest =>
    if Directive.ofName? word = some .segment then
      if isName id && !isKeyword id then
        .after (surplus rest) (.accept (.opened (Text.upper id)))
      else
        .after ((Diagnostic.invalidSegmentId id).asError :: surplus rest)
          (.accept (.opened s.segmentName))
    else .reject .segmentExpected

/-- The line that closes the segment. -/
def judgeClosing (s : State) (name : Option Text) (rest : List Text) : Verdict :=
  if s.isOpen then
    let mismatch :=
      match name with
      | some n =>
        if Text.sameLetters n s.segmentName then []
        else [(Diagnostic.segmentNameMismatch n).asError]
      | none => []
    .after (mismatch ++ surplus rest) (.accept .closed)
  else .reject (.unexpectedDirective Directive.ends.name)

/-! ### The address counter -/

/-- Set the counter. -/
def judgeOrg : List Text → Verdict
  | [] => .reject (.badExpression [])
  | word :: rest =>
    .after (surplus rest) <|
      match directiveNumber word with
      | .error d => .reject d
      | .ok v => if 0 ≤ v then .accept (.moved v.toNat) else .reject (.negativeAddress v)

/-- The counter may be moved up to this address without complaint. -/
def offsetLimit : Int := 25565

/-- Move the counter by a distance. -/
def judgeOffset (s : State) : List Text → Verdict
  | [] => .reject (.badExpression [])
  | word :: rest =>
    .after (surplus rest) <|
      match directiveNumber word with
      | .error d => .reject d
      | .ok v =>
        let target : Int := s.counter + v
        if target < 0 then .reject (.negativeAddress target)
        else if (topAddress : Int) < target then .reject .addressOverflow
        else if offsetLimit < target then
          ⟨[Diagnostic.offsetLimit.asError], .moved target.toNat⟩
        else .accept (.moved target.toNat)

/-! ### Names, data and instructions -/

/-- Give a name to the address here. -/
def judgeLabel (s : State) (id : Text) (rest : List Text) : Verdict :=
  if !isName id then .reject (.invalidLabelId id)
  else if s.names.contains id then .reject (.duplicateId (Text.upper id))
  else .after (surplus rest) (.accept (.labelled id))

/-- Define data here. -/
def judgeDefinition (s : State) (id : Text) (type : DataType) (words : List Text) : Verdict :=
  if !isName id then .reject (.invalidLabelId id)
  else if s.names.contains id then .reject (.duplicateId (Text.upper id))
  else
    let values := definedValues type words
    .after (valueFindings type words) <|
      if s.counter + type.width * values.length ≤ topAddress then
        .accept (.defined id type values)
      else .reject .addressOverflow

/-- Collect an instruction here. -/
def judgeInstruction (s : State) (m : Mnemonic) (words : List Text) : Verdict :=
  let op2 := words[1]?.map Operand.ofWord
  let op1 := asTarget m (words[0]?.map Operand.ofWord) op2
  .after (surplus (words.drop 2)) <|
    match Template.lookup? m (op1.map Operand.kind) (op2.map Operand.kind) with
    | none => .reject .invalidOperands
    | some template =>
      let length := Instruction.lengthOf op1 op2
      if s.counter + length ≤ topAddress then
        .accept (.collected m ⟨template, op1, op2, s.counter, length⟩)
      else .reject .addressOverflow

/-! ### Any line -/

/-- The verdict on a statement, once the segment has been opened. -/
def judgeStatement (s : State) : Statement → Verdict
  | .instruction m words => s.inside (s.judgeInstruction m words)
  | .org words => s.inside (judgeOrg words)
  | .offset words => s.inside (s.judgeOffset words)
  | .close name rest => s.judgeClosing name rest
  | .label id rest => s.inside (s.judgeLabel id rest)
  | .define id type words => s.inside (s.judgeDefinition id type words)
  | .misplaced directive => .reject (.unexpectedDirective directive.name)
  | .unknown => .reject .invalidInstruction

/-- The verdict on a line. -/
def judge (s : State) (line : CodeLine) : Verdict :=
  match s.phase with
  | .pending => s.judgeOpening line.head line.rest
  | _ => s.judgeStatement (.ofWords line.head line.rest)

end State

end SegmentAssembler
