import SegmentAssembler.Image
import SegmentAssembler.Proofs.Admission

/-!
# Verdicts without errors

A line may have an effect although something is wrong with it: a word too many
or a faulty value is reported and the rest of the line counts.  A verdict is
*clean* if it reports no error at all.  `State.Grants` lists the statements that
an open segment takes without an error, each with everything that the verdict
says of it:

    ORG v       OFFSET v      the counter goes to an address in range
    ENDS        name ENDS     the name, if there is one, is that of the segment
    id:                       a new name
    id DW v …   id DB v …     a new name, values of the type, room for them
    mnemonic …                at most two operands that the table has a row for

* `judgeStatement_clean_iff` — inside the segment these are the clean verdicts;
* `not_clean_of_closed` — behind its end there is none;
* `judgeOpening_clean_iff` — before its beginning only a full opening line;
* `grants_of_clean` — so a clean line of an opened segment is granted.
-/

namespace SegmentAssembler

/-! ### Clean findings -/

/-- None of the findings is an error. -/
def NoError (findings : List Finding) : Prop := ∀ f ∈ findings, f.severity ≠ .error

@[simp] theorem noError_nil : NoError [] := fun _ h => nomatch h

@[simp] theorem noError_append_iff {fs gs : List Finding} :
    NoError (fs ++ gs) ↔ NoError fs ∧ NoError gs := List.forall_mem_append

@[simp] theorem noError_asError_cons_iff {d : Diagnostic} {fs : List Finding} :
    NoError (d.asError :: fs) ↔ False := by
  simp [NoError, Diagnostic.asError]

/-- A word too many is an error. -/
@[simp] theorem noError_surplus_iff {rest : List Text} : NoError (surplus rest) ↔ rest = [] := by
  cases rest <;> simp [surplus]

namespace Verdict

/-- Nothing is wrong with the line; there may be a warning. -/
def Clean (v : Verdict) : Prop := NoError v.findings

/-- A rejected line is never clean. -/
@[simp] theorem clean_reject_iff {d : Diagnostic} : (reject d).Clean ↔ False := by
  simp [Clean, reject]

@[simp] theorem clean_accept (e : Effect) : (accept e).Clean := noError_nil

@[simp] theorem clean_after_iff {fs : List Finding} {v : Verdict} :
    (after fs v).Clean ↔ NoError fs ∧ v.Clean := noError_append_iff

@[simp] theorem after_nil (v : Verdict) : after [] v = v := rfl

end Verdict

/-! ### Values -/

/-- A word that a definition of the type takes as a value. -/
def IsValue (type : DataType) (word : Text) : Prop :=
  word = ['?'] ∨ ∃ v, Numeral.read? word = some v ∧ type.contains v = true

/-- A definition takes exactly the words that are values of its type. -/
theorem definedValue_ok_iff {type : DataType} {word : Text} :
    (∃ v, definedValue type word = .ok v) ↔ IsValue type word := by
  unfold definedValue IsValue
  by_cases hopen : word = ['?']
  · simp [hopen]
  · cases hread : Numeral.read? word with
    | none => simp [hopen]
    | some v => by_cases hrange : type.contains v = true <;> simp [hopen, hrange]

/-- Values are clean exactly if every word is one; that there is none is only
worth a warning. -/
theorem noError_valueFindings_iff {type : DataType} {words : List Text} :
    NoError (valueFindings type words) ↔ ∀ word ∈ words, IsValue type word := by
  cases words with
  | nil => simp [valueFindings, NoError, Diagnostic.asWarning]
  | cons first rest =>
      simp only [valueFindings, NoError, List.mem_filterMap, ← definedValue_ok_iff]
      constructor
      · intro h word hword
        cases hvalue : definedValue type word with
        | ok v => exact ⟨v, rfl⟩
        | error d => exact absurd rfl (h d.asError ⟨word, hword, by simp [hvalue]⟩)
      · rintro h f ⟨word, hword, hf⟩
        obtain ⟨v, hvalue⟩ := h word hword
        simp [hvalue] at hf

/-- A definition has a value for every word, and at least one. -/
theorem length_definedValues (type : DataType) (words : List Text) :
    (definedValues type words).length = max 1 words.length := by
  cases words with
  | nil => rfl
  | cons first rest => simp [definedValues]

/-- The number of a directive is a word value. -/
theorem directiveNumber_ok_iff {word : Text} {v : Int} :
    directiveNumber word = .ok v ↔
      Numeral.read? word = some v ∧ DataType.word.contains v = true := by
  unfold directiveNumber
  cases hread : Numeral.read? word with
  | none => simp
  | some n =>
      by_cases hrange : DataType.word.contains n = true
      · simp only [if_pos hrange, Except.ok.injEq, Option.some.injEq]
        constructor
        · rintro rfl
          exact ⟨rfl, hrange⟩
        · exact fun h => h.1
      · simp only [if_neg hrange, reduceCtorEq, Option.some.injEq, false_iff]
        rintro ⟨rfl, h⟩
        exact hrange h

/-! ### Statements inside the segment -/

namespace State

/-- The statements that an open segment takes without an error, and the verdict
on each. -/
inductive Grants (s : State) : Statement → Verdict → Prop
  | org {word : Text} {v : Int} (hread : Numeral.read? word = some v) (hlow : 0 ≤ v)
      (htop : v ≤ topAddress) : Grants s (.org [word]) (.accept (.moved v.toNat))
  | offset {word : Text} {v : Int} (hread : Numeral.read? word = some v)
      (hrange : DataType.word.contains v = true) (hlow : 0 ≤ s.counter + v)
      (hlimit : s.counter + v ≤ offsetLimit) :
      Grants s (.offset [word]) (.accept (.moved (s.counter + v).toNat))
  | close {name : Option Text}
      (hname : ∀ n ∈ name, Text.sameLetters n s.segmentName = true) :
      Grants s (.close name []) (.accept .closed)
  | label {id : Text} (hname : isName id = true) (hfree : s.names.contains id = false) :
      Grants s (.label id []) (.accept (.labelled id))
  | define {id : Text} {type : DataType} {words : List Text} (hname : isName id = true)
      (hfree : s.names.contains id = false) (hvalues : ∀ word ∈ words, IsValue type word)
      (htop : s.counter + type.width * max 1 words.length ≤ topAddress) :
      Grants s (.define id type words)
        ⟨valueFindings type words, .defined id type (definedValues type words)⟩
  | instruction {m : Mnemonic} {words : List Text} {template : Template}
      {op1 op2 : Option Operand} (hcount : words.length ≤ 2)
      (hop1 : op1 = asTarget m (words[0]?.map Operand.ofWord) op2)
      (hop2 : op2 = words[1]?.map Operand.ofWord)
      (hrow : Template.lookup? m (op1.map Operand.kind) (op2.map Operand.kind) = some template)
      (htop : s.counter + Instruction.lengthOf op1 op2 ≤ topAddress) :
      Grants s (.instruction m words)
        (.accept (.collected m ⟨template, op1, op2, s.counter, Instruction.lengthOf op1 op2⟩))

section Statements

variable {s : State}

/-- What is said outside the segment is not clean. -/
theorem not_clean_of_closed (hphase : s.phase ≠ .opened) (stmt : Statement) :
    ¬ (s.judgeStatement stmt).Clean := by
  have hopen : s.isOpen = false := by simpa [isOpen] using hphase
  cases stmt <;> simp [judgeStatement, inside, judgeClosing, hopen]

/-- The open segment lets every verdict stand. -/
theorem inside_of_opened (hphase : s.phase = .opened) (v : Verdict) : s.inside v = v := by
  simp [inside, isOpen, hphase]

/-- A granted statement gets the verdict that stands with it, and no error. -/
theorem Grants.judgeStatement_eq {stmt : Statement} {v : Verdict} (h : s.Grants stmt v)
    (hphase : s.phase = .opened) : s.judgeStatement stmt = v ∧ v.Clean := by
  cases h with
  | @org word v hread hlow htop =>
      have hnumber : directiveNumber word = .ok v := by
        refine directiveNumber_ok_iff.mpr ⟨hread, (DataType.contains_iff _ _).mpr ?_⟩
        simp only [topAddress, DataType.modulus] at *
        omega
      refine ⟨?_, Verdict.clean_accept _⟩
      simp [judgeStatement, inside_of_opened hphase, judgeOrg, surplus, hnumber, hlow]
  | @offset word v hread hrange hlow hlimit =>
      have hnumber : directiveNumber word = .ok v := directiveNumber_ok_iff.mpr ⟨hread, hrange⟩
      have hlow' : ¬ (s.counter + v < 0) := by omega
      have htop : ¬ ((topAddress : Int) < s.counter + v) := by
        simp only [topAddress, offsetLimit] at *
        omega
      have hlimit' : ¬ (offsetLimit < s.counter + v) := by omega
      refine ⟨?_, Verdict.clean_accept _⟩
      simp [judgeStatement, inside_of_opened hphase, judgeOffset, surplus, hnumber, hlow', htop,
        hlimit']
  | @close name hname =>
      refine ⟨?_, Verdict.clean_accept _⟩
      cases name with
      | none => simp [judgeStatement, judgeClosing, isOpen, hphase, surplus]
      | some n => simp [judgeStatement, judgeClosing, isOpen, hphase, surplus, hname n rfl]
  | label hname hfree =>
      refine ⟨?_, Verdict.clean_accept _⟩
      simp [judgeStatement, inside_of_opened hphase, judgeLabel, hname, hfree, surplus]
  | @define id type words hname hfree hvalues htop =>
      refine ⟨?_, noError_valueFindings_iff.mpr hvalues⟩
      rw [← length_definedValues type] at htop
      simp [judgeStatement, inside_of_opened hphase, judgeDefinition, hname, hfree, htop,
        Verdict.after, Verdict.accept]
  | @instruction m words template op1 op2 hcount hop1 hop2 hrow htop =>
      refine ⟨?_, Verdict.clean_accept _⟩
      simp only [judgeStatement, inside_of_opened hphase, judgeInstruction, ← hop2, ← hop1, hrow,
        if_pos htop, List.drop_eq_nil_of_le hcount, surplus, Verdict.after_nil]

/-- An origin without an error is granted: one number, and an address. -/
private theorem grants_of_clean_org {words : List Text} (h : (judgeOrg words).Clean) :
    ∃ v, s.Grants (.org words) v := by
  cases words with
  | nil => simp [judgeOrg] at h
  | cons word rest =>
      simp only [judgeOrg, Verdict.clean_after_iff, noError_surplus_iff] at h
      obtain ⟨rfl, h⟩ := h
      cases hnumber : directiveNumber word with
      | error d => simp [hnumber] at h
      | ok v =>
          obtain ⟨hread, hrange⟩ := directiveNumber_ok_iff.mp hnumber
          rw [DataType.contains_iff] at hrange
          by_cases hlow : 0 ≤ v
          · refine ⟨_, .org hread hlow ?_⟩
            simp only [topAddress, DataType.modulus] at *
            omega
          · simp [hnumber, hlow] at h

/-- An offset without an error is granted: one number, and it leads to an address within
the limit. -/
private theorem grants_of_clean_offset {words : List Text} (h : (s.judgeOffset words).Clean) :
    ∃ v, s.Grants (.offset words) v := by
  cases words with
  | nil => simp [judgeOffset] at h
  | cons word rest =>
      simp only [judgeOffset, Verdict.clean_after_iff, noError_surplus_iff] at h
      obtain ⟨rfl, h⟩ := h
      cases hnumber : directiveNumber word with
      | error d => simp [hnumber] at h
      | ok v =>
          obtain ⟨hread, hrange⟩ := directiveNumber_ok_iff.mp hnumber
          by_cases hlow : s.counter + v < 0
          · simp [hnumber, hlow] at h
          · by_cases htop : (topAddress : Int) < s.counter + v
            · simp [hnumber, hlow, htop] at h
            · by_cases hlimit : offsetLimit < s.counter + v
              · simp [hnumber, hlow, htop, hlimit, Verdict.Clean] at h
              · exact ⟨_, .offset hread hrange (by omega) (by omega)⟩

/-- A closing line without an error is granted: the name is that of the segment, if
there is one. -/
private theorem grants_of_clean_close {name : Option Text} {rest : List Text}
    (h : (s.judgeClosing name rest).Clean) : ∃ v, s.Grants (.close name rest) v := by
  unfold judgeClosing at h
  split at h
  · simp only [Verdict.clean_after_iff, noError_append_iff, noError_surplus_iff] at h
    obtain ⟨⟨hname, rfl⟩, -⟩ := h
    refine ⟨_, .close ?_⟩
    rintro n rfl
    by_cases hsame : Text.sameLetters n s.segmentName = true
    · exact hsame
    · simp [hsame] at hname
  · simp at h

/-- A label without an error is granted: a free name, and nothing behind it. -/
private theorem grants_of_clean_label {id : Text} {rest : List Text}
    (h : (s.judgeLabel id rest).Clean) : ∃ v, s.Grants (.label id rest) v := by
  unfold judgeLabel at h
  split at h
  · simp at h
  · rename_i hname
    split at h
    · simp at h
    · rename_i hfree
      simp only [Verdict.clean_after_iff, noError_surplus_iff] at h
      obtain ⟨rfl, -⟩ := h
      exact ⟨_, .label (by simpa using hname) (by simpa using hfree)⟩

/-- A definition without an error is granted: a free name, values of its type, and room
for them. -/
private theorem grants_of_clean_define {id : Text} {type : DataType} {words : List Text}
    (h : (s.judgeDefinition id type words).Clean) : ∃ v, s.Grants (.define id type words) v := by
  unfold judgeDefinition at h
  split at h
  · simp at h
  · rename_i hname
    split at h
    · simp at h
    · rename_i hfree
      simp only [Verdict.clean_after_iff, noError_valueFindings_iff, length_definedValues] at h
      obtain ⟨hvalues, h⟩ := h
      split at h
      · rename_i htop
        exact ⟨_, .define (by simpa using hname) (by simpa using hfree) hvalues htop⟩
      · simp at h

/-- An instruction without an error is granted: at most two operands with a row in the
opcode table, and room for the code. -/
private theorem grants_of_clean_instruction {m : Mnemonic} {words : List Text}
    (h : (s.judgeInstruction m words).Clean) : ∃ v, s.Grants (.instruction m words) v := by
  simp only [judgeInstruction, Verdict.clean_after_iff, noError_surplus_iff,
    List.drop_eq_nil_iff] at h
  obtain ⟨hcount, h⟩ := h
  split at h
  · simp at h
  · rename_i template hrow
    split at h
    · rename_i htop
      exact ⟨_, .instruction hcount rfl rfl hrow htop⟩
    · simp at h

/-- **The clean verdicts of an open segment** are those on granted statements. -/
theorem judgeStatement_clean_iff (hphase : s.phase = .opened) (stmt : Statement) :
    (s.judgeStatement stmt).Clean ↔ s.Grants stmt (s.judgeStatement stmt) := by
  constructor
  · intro h
    have hgrants : ∃ v, s.Grants stmt v := by
      cases stmt with
      | instruction m words =>
          rw [judgeStatement, inside_of_opened hphase] at h
          exact grants_of_clean_instruction h
      | org words =>
          rw [judgeStatement, inside_of_opened hphase] at h
          exact grants_of_clean_org h
      | offset words =>
          rw [judgeStatement, inside_of_opened hphase] at h
          exact grants_of_clean_offset h
      | close name rest => exact grants_of_clean_close h
      | label id rest =>
          rw [judgeStatement, inside_of_opened hphase] at h
          exact grants_of_clean_label h
      | define id type words =>
          rw [judgeStatement, inside_of_opened hphase] at h
          exact grants_of_clean_define h
      | misplaced directive => simp [judgeStatement] at h
      | unknown => simp [judgeStatement] at h
    obtain ⟨v, hv⟩ := hgrants
    rwa [(hv.judgeStatement_eq hphase).1]
  · exact fun h => (h.judgeStatement_eq hphase).2

/-! ### The opening line -/

/-- **The clean opening lines.** -/
theorem judgeOpening_clean_iff {id : Text} {rest : List Text} :
    (s.judgeOpening id rest).Clean ↔
      ∃ word, rest = [word] ∧ Directive.ofName? word = some .segment ∧
        isName id = true ∧ isKeyword id = false := by
  cases rest with
  | nil => simp [judgeOpening]
  | cons word rest =>
      unfold judgeOpening
      by_cases hsegment : Directive.ofName? word = some .segment
      · by_cases hvalid : (isName id && !isKeyword id) = true
        · have hparts : isName id = true ∧ isKeyword id = false := by simpa using hvalid
          simp only [if_pos hsegment, if_pos hvalid, Verdict.clean_after_iff, noError_surplus_iff,
            Verdict.clean_accept, and_true, List.cons.injEq]
          constructor
          · rintro rfl
            exact ⟨word, ⟨rfl, rfl⟩, hsegment, hparts⟩
          · rintro ⟨other, ⟨-, hrest⟩, -⟩
            exact hrest
        · have hparts : ¬ (isName id = true ∧ isKeyword id = false) := by simpa using hvalid
          simp only [if_pos hsegment, if_neg hvalid]
          simp [hparts]
      · simp only [hsegment, if_false, Verdict.clean_reject_iff, false_iff]
        rintro ⟨other, heq, hother, -⟩
        cases heq
        exact hsegment hother

/-- What a clean opening line does. -/
theorem judgeOpening_eq {id word : Text} (hword : Directive.ofName? word = some .segment)
    (hname : isName id = true) (hkeyword : isKeyword id = false) :
    s.judgeOpening id [word] = .accept (.opened (Text.upper id)) := by
  simp [judgeOpening, hword, hname, hkeyword, surplus]

/-! ### Lines -/

/-- Once the segment has been opened, the words of a line decide what it says. -/
theorem judge_of_ne_pending (h : s.phase ≠ .pending) (line : CodeLine) :
    s.judge line = s.judgeStatement (.ofWords line.head line.rest) := by
  unfold judge
  split
  · exact absurd ‹_› h
  · rfl

/-- **Once the segment has been opened, a clean line is granted**, and the
segment is still open. -/
theorem grants_of_clean {line : CodeLine} (hphase : s.phase ≠ .pending)
    (h : (s.judge line).Clean) :
    s.phase = .opened ∧ s.Grants (.ofWords line.head line.rest) (s.judge line) := by
  rw [judge_of_ne_pending hphase] at h ⊢
  by_cases hopened : s.phase = .opened
  · exact ⟨hopened, (judgeStatement_clean_iff hopened _).mp h⟩
  · exact absurd h (not_clean_of_closed hopened _)

/-- The record of a line that is taken without an error. -/
theorem scan_of_grants {line : CodeLine} {v : Verdict} (hphase : s.phase = .opened)
    (h : s.Grants (.ofWords line.head line.rest) v) : s.scan line = ⟨line, s, v⟩ ∧ v.Clean := by
  obtain ⟨hverdict, hclean⟩ := h.judgeStatement_eq hphase
  rw [← judge_of_ne_pending (by rw [hphase]; decide)] at hverdict
  exact ⟨by rw [scan, hverdict], hclean⟩

/-- What a correct opening line does at the beginning of a program. -/
theorem scan_opening {n : Nat} {id word : Text} (hname : isName id = true)
    (hkeyword : isKeyword id = false) (hword : Directive.ofName? word = some .segment) :
    scan {} ⟨n, id, [word]⟩ = ⟨⟨n, id, [word]⟩, {}, .accept (.opened (Text.upper id))⟩ := by
  simp [scan, judge, judgeOpening_eq hword hname hkeyword]

end Statements

end State

/-- The scan reports no error exactly if every line is clean and the segment
has a length. -/
theorem Layout.hasErrors_findings_eq_false_iff {l : Layout} :
    (Report.ofFindings l.findings).hasErrors = false ↔
      (∀ r ∈ l.records, r.verdict.Clean) ∧ 0 ≤ l.extent := by
  rw [Report.hasErrors_ofFindings_eq_false_iff, findings, List.forall_mem_append]
  refine and_congr ?_ ?_
  · simp only [List.mem_flatMap, Record.findings, List.mem_map, Verdict.Clean, NoError]
    constructor
    · intro h r hr f hf
      exact h (r.line.number, f) ⟨r, hr, f, hf, rfl⟩
    · rintro h found ⟨r, hr, f, hf, rfl⟩
      exact h r hr f hf
  · unfold lengthFindings
    by_cases hneg : l.extent < 0
    · simp [hneg, Diagnostic.asError]
    · simp [hneg, Int.not_lt.mp hneg]

/-- Without errors every line is clean and the segment has a length. -/
theorem Layout.clean_of_no_errors {l : Layout} (h : l.report.hasErrors = false) :
    (∀ r ∈ l.records, r.verdict.Clean) ∧ 0 ≤ l.extent := by
  rw [report, Report.hasErrors_ofFindings_eq_false_iff, List.forall_mem_append] at h
  exact hasErrors_findings_eq_false_iff.mp (Report.hasErrors_ofFindings_eq_false_iff.mpr h.1)

end SegmentAssembler
