import Mathlib.Data.List.Basic
import Mathlib.Data.List.TakeWhile
import SegmentAssembler.Proofs.Admission

/-!
# Which words make which statement

The first word of a line is tried as a mnemonic, as a directive and as a label,
in this order, and a name comes last.  `Statement.Says` undoes this chain: for
each statement it lists what the words of the line must have been.

* `says_ofWords` — what a line says, it says in one of these ways;
* `ofWords_of_mnemonic`, `ofWords_of_directive`, `ofWords_label`,
  `ofWords_of_not_keyword` — and these words say it.

The directive that ends the program is left aside: no line of a program begins
with it.
-/

namespace SegmentAssembler

/-- The directive that defines data of a type. -/
def DataType.directive : DataType → Directive
  | byte => .db
  | word => .dw

/-- A word is no keyword if it names neither a directive nor a mnemonic. -/
theorem isKeyword_eq_false_iff {word : Text} :
    isKeyword word = false ↔ Directive.ofName? word = none ∧ Mnemonic.ofName? word = none := by
  simp [isKeyword]

/-- A word with a colon at its end is no keyword. -/
theorem isKeyword_append_colon (id : Text) : isKeyword (id ++ [':']) = false := by
  have hlast : (Text.asciiUpper (id ++ [':'])).getLast? = some ':' := by
    simp [Text.asciiUpper]
  rw [isKeyword_eq_false_iff]
  constructor
  · cases hdirective : Directive.ofName? (id ++ [':']) with
    | none => rfl
    | some d =>
        rw [Directive.ofName?_eq_some_iff.mp hdirective] at hlast
        cases d <;> exact absurd hlast (by decide)
  · cases hmnemonic : Mnemonic.ofName? (id ++ [':']) with
    | none => rfl
    | some m =>
        rw [Mnemonic.ofName?_eq_some_iff.mp hmnemonic] at hlast
        cases m <;> exact absurd hlast (by decide)

namespace Statement

/-! ### Words that say something -/

/-- A mnemonic in front makes an instruction. -/
theorem ofWords_of_mnemonic {head : Text} {m : Mnemonic} (h : Mnemonic.ofName? head = some m)
    (rest : List Text) : ofWords head rest = .instruction m rest := by
  simp [ofWords, h]

/-- A directive at the beginning of a line, other than the one that ends the program. -/
theorem ofWords_of_directive {head : Text} {d : Directive} (h : Directive.ofName? head = some d)
    (rest : List Text) :
    ofWords head rest =
      match d with
      | .org => .org rest
      | .offset => .offset rest
      | .ends => .close none rest
      | .finish => ofLabelled head rest
      | d => .misplaced d := by
  cases d <;> simp [ofWords, mnemonic_none_of_directive h, h]

/-- A line without a keyword in front begins with a label or another name. -/
theorem ofWords_of_not_keyword {head : Text} (h : isKeyword head = false) (rest : List Text) :
    ofWords head rest = ofLabelled head rest := by
  obtain ⟨hdirective, hmnemonic⟩ := isKeyword_eq_false_iff.mp h
  simp [ofWords, hdirective, hmnemonic]

@[simp] theorem labelName?_append_colon (id : Text) : labelName? (id ++ [':']) = some id := by
  simp [labelName?]

/-- A label is its name with a colon. -/
theorem eq_append_colon_of_labelName? {word id : Text} (h : labelName? word = some id) :
    word = id ++ [':'] := by
  unfold labelName? at h
  split at h
  · rename_i hlast
    cases h
    exact (List.dropLast_append_getLast? ':' hlast).symm
  · exact nomatch h

/-- A word with a final colon in front makes a label, since no keyword has one. -/
theorem ofWords_label (id : Text) (rest : List Text) :
    ofWords (id ++ [':']) rest = .label id rest := by
  rw [ofWords_of_not_keyword (isKeyword_append_colon id)]
  simp [ofLabelled]

/-- A name cannot be taken for a label. -/
theorem labelName?_of_isName {id : Text} (h : isName id = true) : labelName? id = none := by
  cases hlabel : labelName? id with
  | none => rfl
  | some other =>
      obtain rfl := eq_append_colon_of_labelName? hlabel
      cases other with
      | nil => exact absurd h (by decide)
      | cons first rest =>
          simp [isName, isNamePart] at h

/-- A name in front is read with the directive behind it. -/
theorem ofWords_named {head : Text} (hname : isName head = true) (hkeyword : isKeyword head = false)
    (rest : List Text) : ofWords head rest = ofNamed head rest := by
  rw [ofWords_of_not_keyword hkeyword, ofLabelled, labelName?_of_isName hname]

/-- A name and a directive for data make a definition. -/
theorem ofNamed_define {word : Text} {type : DataType}
    (h : Directive.ofName? word = some type.directive) (name : Text) (values : List Text) :
    ofNamed name (word :: values) = .define name type values := by
  cases type <;> simp [ofNamed, h, DataType.directive]

/-- A name may stand before the end of the segment. -/
theorem ofNamed_close {word : Text} (h : Directive.ofName? word = some .ends) (name : Text)
    (rest : List Text) : ofNamed name (word :: rest) = .close (some name) rest := by
  simp [ofNamed, h]

/-! ### What was said in which words -/

/-- The words behind a statement. -/
inductive Says (head : Text) (rest : List Text) : Statement → Prop
  | instruction {m : Mnemonic} (h : Mnemonic.ofName? head = some m) :
      Says head rest (.instruction m rest)
  | org (h : Directive.ofName? head = some .org) : Says head rest (.org rest)
  | offset (h : Directive.ofName? head = some .offset) : Says head rest (.offset rest)
  | close (h : Directive.ofName? head = some .ends) : Says head rest (.close none rest)
  | closeNamed {word : Text} {more : List Text} (hrest : rest = word :: more)
      (h : Directive.ofName? word = some .ends) : Says head rest (.close (some head) more)
  | label {id : Text} (h : head = id ++ [':']) : Says head rest (.label id rest)
  | define {word : Text} {type : DataType} {values : List Text}
      (hkeyword : isKeyword head = false) (hrest : rest = word :: values)
      (h : Directive.ofName? word = some type.directive) :
      Says head rest (.define head type values)
  | misplaced (d : Directive) : Says head rest (.misplaced d)
  | unknown : Says head rest .unknown

/-- What a line without a keyword in front says. -/
private theorem says_ofLabelled {head : Text} (hkeyword : isKeyword head = false)
    (rest : List Text) : Says head rest (ofLabelled head rest) := by
  unfold ofLabelled
  cases hlabel : labelName? head with
  | some id => exact .label (eq_append_colon_of_labelName? hlabel)
  | none =>
      cases rest with
      | nil => exact .unknown
      | cons word rest =>
          simp only [ofNamed]
          split
          · rename_i hword
            have hword : Directive.ofName? word = some DataType.word.directive := hword
            exact .define hkeyword rfl hword
          · rename_i hword
            have hword : Directive.ofName? word = some DataType.byte.directive := hword
            exact .define hkeyword rfl hword
          · rename_i hword
            exact .closeNamed rfl hword
          · exact .misplaced .segment
          · exact .unknown

/-- **What a line says, it says in one of these ways.** -/
theorem says_ofWords {head : Text} (hend : Directive.ofName? head ≠ some .finish)
    (rest : List Text) : Says head rest (ofWords head rest) := by
  cases hmnemonic : Mnemonic.ofName? head with
  | some m =>
      rw [ofWords_of_mnemonic hmnemonic]
      exact .instruction hmnemonic
  | none =>
      cases hdirective : Directive.ofName? head with
      | none =>
          have hkeyword := isKeyword_eq_false_iff.mpr ⟨hdirective, hmnemonic⟩
          rw [ofWords_of_not_keyword hkeyword]
          exact says_ofLabelled hkeyword rest
      | some d =>
          rw [ofWords_of_directive hdirective]
          cases d with
          | org => exact .org hdirective
          | offset => exact .offset hdirective
          | ends => exact .close hdirective
          | segment => exact .misplaced .segment
          | dw => exact .misplaced .dw
          | db => exact .misplaced .db
          | finish => exact absurd hdirective hend

end Statement

/-! ### Lines of a program -/

/-- A line ends the program by its first word. -/
theorem CodeLine.isEnd_eq_false_iff {line : CodeLine} :
    line.isEnd = false ↔ Directive.ofName? line.head ≠ some .finish := by
  rw [ne_eq, Directive.ofName?_eq_some_iff, isEnd, ← Bool.not_eq_true, Text.sameLetters_iff]
  exact Iff.rfl

/-- No line of a program ends it. -/
theorem isEnd_eq_false_of_mem_programLines {lines : List Line} {line : CodeLine}
    (h : line ∈ programLines lines) : line.isEnd = false := by
  simpa using List.mem_takeWhile_imp h

end SegmentAssembler
