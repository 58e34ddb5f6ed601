import SegmentAssembler.Proofs.Continuation
import SegmentAssembler.Proofs.Declarations

/-!
# What encoding can find wrong

The scan checks a line by itself; encoding looks at what the line refers to.
An instruction that the scan collected fails only for a name that is not
declared, for a jump to no label or to one that is too far away, or for a number
that does not fit:

    operand                  complaint
    address                  the name is not declared
    target of a jump         it is not declared, is no label, or is out of reach
    number beside a register it is no word
    number of an interrupt   it is no byte

* `Instruction.Fault` — these conditions, said of the operands and the table of
  names without the encoder;
* `Formed.encode_error_iff_fault` — the encoder complains exactly of these faults;
* `State.weighed_judge` — the scan warns of a missing value and of nothing else,
  and everything else that it finds is an error;
* `Layout.origin_of_mem_findings` — every finding comes from a line of the scan, from
  the length of the segment or from such a fault;
* `Layout.reports_faults` — so encoding adds to the report of the scan one error for
  each instruction with a fault, and such an instruction leaves no trace in the
  code.
-/

namespace SegmentAssembler

/-! ### The weight of findings -/

/-- A missing value is a warning, and it is the only one. -/
def Finding.Weighed (f : Finding) : Prop :=
  f.severity = .warning ↔ f.diagnostic = .missingOperand

/-- All findings of the verdict have their proper weight. -/
def Verdict.Weighed (v : Verdict) : Prop := ∀ f ∈ v.findings, f.Weighed

/-- An error has its proper weight unless it is about a missing value. -/
theorem Diagnostic.weighed_asError {d : Diagnostic} (h : d ≠ .missingOperand) :
    d.asError.Weighed :=
  ⟨nofun, fun hd => absurd hd h⟩

namespace Verdict.Weighed

/-- A line is never rejected for a missing value, so the rejection has its weight. -/
theorem reject {d : Diagnostic} (h : d ≠ .missingOperand) : (Verdict.reject d).Weighed :=
  List.forall_mem_singleton.mpr (Diagnostic.weighed_asError h)

theorem accept (e : Effect) : (Verdict.accept e).Weighed := nofun

/-- Findings in front of a verdict keep the weight of both. -/
theorem after {fs : List Finding} {v : Verdict} (hfs : ∀ f ∈ fs, f.Weighed) (hv : v.Weighed) :
    (Verdict.after fs v).Weighed :=
  List.forall_mem_append.mpr ⟨hfs, hv⟩

end Verdict.Weighed

/-- A word too many is an error. -/
theorem weighed_surplus (rest : List Text) : ∀ f ∈ surplus rest, f.Weighed := by
  cases rest with
  | nil => exact nofun
  | cons word rest => exact List.forall_mem_singleton.mpr (Diagnostic.weighed_asError nofun)

/-- What is wrong with the number of a directive is never that it is missing. -/
theorem ne_missing_of_directiveNumber {word : Text} {d : Diagnostic}
    (h : directiveNumber word = .error d) : d ≠ .missingOperand := by
  unfold directiveNumber at h
  split at h
  · cases h
    exact nofun
  · split at h
    · cases h
    · cases h
      exact nofun

/-- What is wrong with a value is never that it is missing. -/
theorem ne_missing_of_definedValue {type : DataType} {word : Text} {d : Diagnostic}
    (h : definedValue type word = .error d) : d ≠ .missingOperand := by
  unfold definedValue at h
  split at h
  · cases h
  · split at h
    · cases h
      exact nofun
    · split at h
      · cases h
      · cases h
        exact nofun

/-- A definition without values is warned of; a faulty value is an error. -/
theorem weighed_valueFindings (type : DataType) (words : List Text) :
    ∀ f ∈ valueFindings type words, f.Weighed := by
  cases words with
  | nil => exact List.forall_mem_singleton.mpr ⟨fun _ => rfl, fun _ => rfl⟩
  | cons first rest =>
      intro f hf
      obtain ⟨word, -, hfinding⟩ := List.mem_filterMap.mp hf
      cases hvalue : definedValue type word with
      | ok v =>
          rw [hvalue] at hfinding
          cases hfinding
      | error d =>
          rw [hvalue] at hfinding
          cases hfinding
          exact Diagnostic.weighed_asError (ne_missing_of_definedValue hvalue)

namespace State

variable (s : State)

/-- An opening line has no warning. -/
private theorem weighed_opening (id : Text) (words : List Text) :
    (s.judgeOpening id words).Weighed := by
  cases words with
  | nil => exact .reject nofun
  | cons word rest =>
      simp only [judgeOpening]
      split
      · split
        · exact .after (weighed_surplus rest) (.accept _)
        · refine .after ?_ (.accept _)
          refine List.forall_mem_cons.mpr ⟨Diagnostic.weighed_asError ?_, weighed_surplus rest⟩
          intro h
          cases h
      · exact .reject nofun

/-- A closing line has no warning. -/
private theorem weighed_closing (name : Option Text) (rest : List Text) :
    (s.judgeClosing name rest).Weighed := by
  unfold judgeClosing
  split
  · refine .after (List.forall_mem_append.mpr ⟨?_, weighed_surplus rest⟩) (.accept _)
    split
    · split
      · exact nofun
      · exact List.forall_mem_singleton.mpr (Diagnostic.weighed_asError nofun)
    · exact nofun
  · exact .reject nofun

/-- An origin has no warning. -/
private theorem weighed_org (words : List Text) : (judgeOrg words).Weighed := by
  cases words with
  | nil => exact .reject nofun
  | cons word rest =>
      refine .after (weighed_surplus rest) ?_
      split
      · rename_i d hnumber
        exact .reject (ne_missing_of_directiveNumber hnumber)
      · split
        · exact .accept _
        · exact .reject nofun

/-- An offset has no warning; that it leads too far is an error. -/
private theorem weighed_offset (words : List Text) : (s.judgeOffset words).Weighed := by
  cases words with
  | nil => exact .reject nofun
  | cons word rest =>
      refine .after (weighed_surplus rest) ?_
      split
      · rename_i d hnumber
        exact .reject (ne_missing_of_directiveNumber hnumber)
      · dsimp only
        split
        · exact .reject nofun
        · split
          · exact .reject nofun
          · split
            · exact List.forall_mem_singleton.mpr (Diagnostic.weighed_asError nofun)
            · exact .accept _

/-- A label has no warning. -/
private theorem weighed_label (id : Text) (rest : List Text) :
    (s.judgeLabel id rest).Weighed := by
  unfold judgeLabel
  split
  · exact .reject nofun
  · split
    · exact .reject nofun
    · exact .after (weighed_surplus rest) (.accept _)

/-- A definition has the findings of its values, and an overflow is an error. -/
private theorem weighed_definition (id : Text) (type : DataType) (words : List Text) :
    (s.judgeDefinition id type words).Weighed := by
  unfold judgeDefinition
  split
  · exact .reject nofun
  · split
    · exact .reject nofun
    · refine .after (weighed_valueFindings type words) ?_
      split
      · exact .accept _
      · exact .reject nofun

/-- An instruction has no warning. -/
private theorem weighed_instruction (m : Mnemonic) (words : List Text) :
    (s.judgeInstruction m words).Weighed := by
  refine .after (weighed_surplus _) ?_
  split
  · exact .reject nofun
  · dsimp only
    split
    · exact .accept _
    · exact .reject nofun

/-- Outside the segment every line is an error. -/
private theorem weighed_inside {v : Verdict} (h : v.Weighed) : (s.inside v).Weighed := by
  unfold inside
  split
  · exact h
  · exact .reject nofun

/-- **Findings have their weight**: a missing value is warned of, everything else
is an error. -/
theorem weighed_judge (line : CodeLine) : (s.judge line).Weighed := by
  have hlater : (s.judgeStatement (.ofWords line.head line.rest)).Weighed := by
    cases Statement.ofWords line.head line.rest with
    | instruction m words => exact s.weighed_inside (s.weighed_instruction m words)
    | org words => exact s.weighed_inside (weighed_org words)
    | offset words => exact s.weighed_inside (s.weighed_offset words)
    | close name rest => exact s.weighed_closing name rest
    | label id rest => exact s.weighed_inside (s.weighed_label id rest)
    | define id type words => exact s.weighed_inside (s.weighed_definition id type words)
    | misplaced directive => exact .reject nofun
    | unknown => exact .reject nofun
  unfold judge
  cases s.phase with
  | pending => exact s.weighed_opening line.head line.rest
  | opened => exact hlater
  | closed => exact hlater

end State

/-! ### Faults of instructions -/

/-- What is wrong with an instruction under a table of names. -/
def Instruction.Fault (names : SymbolTable) (m : Mnemonic) (i : Instruction) : Diagnostic → Prop
  | .undeclared id =>
    (i.op1 = some (.address id) ∨ i.op2 = some (.address id)) ∧ Text.upper id ∉ names.keys
  | .undeclaredTarget id =>
    m = .ja ∧ i.op1 = some (.displacement id) ∧ Text.upper id ∉ names.keys
  | .targetNotLabel =>
    m = .ja ∧ ∃ id symbol, i.op1 = some (.displacement id) ∧ names.get? id = some symbol ∧
      symbol.kind ≠ .label
  | .displacementRange d type =>
    m = .ja ∧ type = .byte ∧ ∃ id symbol, i.op1 = some (.displacement id) ∧
      names.get? id = some symbol ∧ symbol.kind = .label ∧
      d = symbol.address - i.address ∧ (d < -256 ∨ 255 < d)
  | .outOfRange v .word => i.op2 = some (.immediate v) ∧ (v < -65536 ∨ 65535 < v)
  | .outOfRange v .byte => m = .int ∧ i.op1 = some (.immediate v) ∧ (v < -256 ∨ 255 < v)
  | _ => False

/-- The operands that the opcode table has rows for. -/
inductive Operand.Paired : Mnemonic → Option Operand → Option Operand → Prop
  | registers (m : Mnemonic) (a b : Register) : Paired m (some (.register a)) (some (.register b))
  | constant (m : Mnemonic) (a : Register) (v : Int) :
      Paired m (some (.register a)) (some (.immediate v))
  | load (m : Mnemonic) (a : Register) (id : Text) :
      Paired m (some (.register a)) (some (.address id))
  | store (m : Mnemonic) (id : Text) (b : Register) :
      Paired m (some (.address id)) (some (.register b))
  | single (m : Mnemonic) (a : Register) : Paired m (some (.register a)) none
  | jump (id : Text) : Paired .ja (some (.displacement id)) none
  | interrupt (v : Int) : Paired .int (some (.immediate v)) none

theorem not_contains_byte_iff {v : Int} :
    ¬ DataType.byte.contains v = true ↔ v < -256 ∨ 255 < v := by
  rw [DataType.contains_iff]
  simp only [DataType.modulus]
  omega

theorem not_contains_word_iff {v : Int} :
    ¬ DataType.word.contains v = true ↔ v < -65536 ∨ 65535 < v := by
  rw [DataType.contains_iff]
  simp only [DataType.modulus]
  omega

/-- A name is not found exactly if its capital form is no key. -/
theorem SymbolTable.get?_eq_none_iff {names : SymbolTable} {id : Text} :
    names.get? id = none ↔ Text.upper id ∉ names.keys := by
  rw [← SymbolTable.contains_eq_false_iff, contains, Option.isSome_eq_false_iff,
    Option.isNone_iff_eq_none]

namespace Instruction

variable {i : Instruction} {names : SymbolTable} {m : Mnemonic} {d : Diagnostic}

/-- The operands of a formed instruction stand in the opcode table. -/
theorem Formed.paired (h : i.Formed m) : Operand.Paired m i.op1 i.op2 := by
  obtain ⟨hrow, -⟩ := h
  unfold Template.lookup? at hrow
  split at hrow
  case h_12 => cases hrow
  case h_1 hk1 hk2 | h_5 hk1 hk2 =>
    obtain ⟨a, ha⟩ := Operand.of_map_kind hk1
    obtain ⟨b, hb⟩ := Operand.of_map_kind hk2
    rw [ha, hb]
    exact .registers _ a b
  case h_2 hk1 hk2 | h_6 hk1 hk2 =>
    obtain ⟨a, ha⟩ := Operand.of_map_kind hk1
    obtain ⟨v, hv⟩ := Operand.of_map_kind hk2
    rw [ha, hv]
    exact .constant _ a v
  case h_3 hk1 hk2 | h_7 hk1 hk2 =>
    obtain ⟨a, ha⟩ := Operand.of_map_kind hk1
    obtain ⟨id, hid⟩ := Operand.of_map_kind hk2
    rw [ha, hid]
    exact .load _ a id
  case h_4 hk1 hk2 | h_8 hk1 hk2 =>
    obtain ⟨id, hid⟩ := Operand.of_map_kind hk1
    obtain ⟨b, hb⟩ := Operand.of_map_kind hk2
    rw [hid, hb]
    exact .store _ id b
  case h_9 hk1 hk2 =>
    obtain ⟨a, ha⟩ := Operand.of_map_kind hk1
    rw [ha, Operand.of_map_kind hk2]
    exact .single _ a
  case h_10 hk1 hk2 =>
    obtain ⟨id, hid⟩ := Operand.of_map_kind hk1
    rw [hid, Operand.of_map_kind hk2]
    exact .jump id
  case h_11 hk1 hk2 =>
    obtain ⟨v, hv⟩ := Operand.of_map_kind hk1
    rw [hv, Operand.of_map_kind hk2]
    exact .interrupt v

/-! ### Placements that fail -/

/-- The encoder fails with the first operand or, after it, with the second. -/
theorem encode_eq_error_iff {op1 : Operand} (hop1 : i.op1 = some op1) :
    i.encode names = .error d ↔ i.placeFirst names op1 = .error d ∨
      ∃ p, i.placeFirst names op1 = .ok p ∧ i.placeSecond names p = .error d := by
  simp only [encode, Instruction.bytes, plainBytes, hop1]
  cases hfirst : i.placeFirst names op1 with
  | error d' => simp [Except.map]
  | ok p =>
      cases hsecond : i.placeSecond names p with
      | error d' => simp [Except.map, hsecond]
      | ok q => simp [Except.map, hsecond]

section Placements

variable {a b : Register} {id : Text} {v : Int} {f : Fields} {t : Option Nat}

/-- A register is always placed. -/
theorem placeFirst_register (i : Instruction) (names : SymbolTable) (a : Register) :
    ∃ f, i.placeFirst names (.register a) = .ok ⟨.fields f, none⟩ := by
  simp only [placeFirst]
  split <;> exact ⟨_, rfl⟩

/-- A second register is always placed. -/
theorem placeSecond_register (hop2 : i.op2 = some (.register b)) (names : SymbolTable)
    (f : Fields) (t : Option Nat) : ∃ q, i.placeSecond names ⟨.fields f, t⟩ = .ok q := by
  simp only [placeSecond, hop2]
  split <;> exact ⟨_, rfl⟩

/-- Without a second operand nothing is left to fail. -/
theorem placeSecond_none (hop2 : i.op2 = none) (names : SymbolTable) (p : Parts) :
    ∃ q, i.placeSecond names p = .ok q := by
  simp only [placeSecond, hop2]
  cases p.second <;> exact ⟨_, rfl⟩

/-- A first operand that is an address fails exactly if its name is not declared. -/
theorem placeFirst_address_error_iff :
    i.placeFirst names (.address id) = .error d ↔ names.get? id = none ∧ d = .undeclared id := by
  simp only [placeFirst, SymbolTable.resolve]
  cases names.get? id with
  | none => simp [eq_comm]
  | some symbol => simp

/-- An address leaves the second byte to the fields. -/
theorem fields_of_placeFirst_address {p : Parts} (h : i.placeFirst names (.address id) = .ok p) :
    ∃ f, p.second = .fields f := by
  simp only [placeFirst] at h
  split at h
  · cases h
  · cases h
    exact ⟨_, rfl⟩

/-- A second operand that is an address fails exactly if its name is not declared. -/
theorem placeSecond_address_error_iff (hop2 : i.op2 = some (.address id)) :
    i.placeSecond names ⟨.fields f, t⟩ = .error d ↔
      names.get? id = none ∧ d = .undeclared id := by
  simp only [placeSecond, hop2, SymbolTable.resolve]
  cases names.get? id with
  | none => simp [eq_comm]
  | some symbol => simp

/-- A number beside a register fails exactly if it is no word. -/
theorem placeSecond_immediate_error_iff (hop2 : i.op2 = some (.immediate v)) (p : Parts) :
    i.placeSecond names p = .error d ↔
      (v < -65536 ∨ 65535 < v) ∧ d = .outOfRange v .word := by
  simp only [placeSecond, hop2]
  rw [← not_contains_word_iff]
  split
  · rename_i hv
    simp [hv]
  · rename_i hv
    simp [hv, eq_comm]

/-- A number alone fails exactly if it is no byte. -/
theorem placeFirst_immediate_error_iff (hop2 : i.op2 = none) :
    i.placeFirst names (.immediate v) = .error d ↔
      (v < -256 ∨ 255 < v) ∧ d = .outOfRange v .byte := by
  simp only [placeFirst, hop2, Option.isSome_none, Bool.false_eq_true, if_false]
  rw [← not_contains_byte_iff]
  split
  · rename_i hv
    simp [hv]
  · rename_i hv
    simp [hv, eq_comm]

/-- The target of a jump is looked up, then its kind and its distance. -/
theorem placeFirst_displacement_error_iff :
    i.placeFirst names (.displacement id) = .error d ↔
      names.get? id = none ∧ d = .undeclaredTarget id ∨
      ∃ symbol, names.get? id = some symbol ∧
        (symbol.kind ≠ .label ∧ d = .targetNotLabel ∨
          symbol.kind = .label ∧
            ((symbol.address : Int) - i.address < -256 ∨ 255 < (symbol.address : Int) - i.address) ∧
            d = .displacementRange (symbol.address - i.address) .byte) := by
  simp only [placeFirst, distance]
  cases names.get? id with
  | none => simp [eq_comm]
  | some symbol =>
      by_cases hkind : symbol.kind = .label
      · by_cases hrange : DataType.byte.contains (symbol.address - i.address) = true
        · have hnear := mt not_contains_byte_iff.mpr (not_not.mpr hrange)
          simp [hkind, hrange, hnear]
        · have hfar := not_contains_byte_iff.mp hrange
          simp [hkind, hrange, hfar, eq_comm]
      · simp [hkind, eq_comm (a := d)]

end Placements

/-- Behind a register only the second operand can be at fault. -/
theorem encode_error_iff_of_register {a : Register} (hop1 : i.op1 = some (.register a))
    (names : SymbolTable) :
    ∃ f, ∀ d, i.encode names = .error d ↔ i.placeSecond names ⟨.fields f, none⟩ = .error d := by
  obtain ⟨f, hf⟩ := i.placeFirst_register names a
  refine ⟨f, fun d => ?_⟩
  rw [encode_eq_error_iff hop1, hf]
  simp

/-- Without a second operand only the first can be at fault. -/
theorem encode_error_iff_of_single {op1 : Operand} (hop1 : i.op1 = some op1)
    (hop2 : i.op2 = none) :
    i.encode names = .error d ↔ i.placeFirst names op1 = .error d := by
  rw [encode_eq_error_iff hop1]
  constructor
  · rintro (hfirst | ⟨p, -, hsecond⟩)
    · exact hfirst
    · obtain ⟨q, hq⟩ := placeSecond_none hop2 names p
      rw [hq] at hsecond
      cases hsecond
  · exact Or.inl

/-- In front of a register only the address can be at fault. -/
theorem encode_error_iff_of_store {id : Text} {b : Register} (hop1 : i.op1 = some (.address id))
    (hop2 : i.op2 = some (.register b)) :
    i.encode names = .error d ↔ names.get? id = none ∧ d = .undeclared id := by
  rw [encode_eq_error_iff hop1, ← placeFirst_address_error_iff (i := i)]
  constructor
  · rintro (hfirst | ⟨p, hfirst, hsecond⟩)
    · exact hfirst
    · obtain ⟨f, hf⟩ := fields_of_placeFirst_address hfirst
      obtain ⟨second, tail⟩ := p
      obtain ⟨q, hq⟩ := placeSecond_register hop2 names f tail
      rw [show second = .fields f from hf, hq] at hsecond
      cases hsecond
  · exact Or.inl

namespace Formed

/-- A complaint names a fault. -/
theorem fault_of_encode (h : i.Formed m) (hcode : i.encode names = .error d) :
    i.Fault names m d := by
  have hpaired := h.paired
  generalize hop1 : i.op1 = op1 at hpaired
  generalize hop2 : i.op2 = op2 at hpaired
  cases hpaired with
  | registers _ a b =>
      obtain ⟨f, hiff⟩ := encode_error_iff_of_register hop1 names
      obtain ⟨q, hq⟩ := placeSecond_register hop2 names f none
      rw [hiff, hq] at hcode
      cases hcode
  | constant _ a v =>
      obtain ⟨f, hiff⟩ := encode_error_iff_of_register hop1 names
      rw [hiff, placeSecond_immediate_error_iff hop2] at hcode
      obtain ⟨hv, rfl⟩ := hcode
      exact ⟨hop2, hv⟩
  | load _ a id =>
      obtain ⟨f, hiff⟩ := encode_error_iff_of_register hop1 names
      rw [hiff, placeSecond_address_error_iff hop2, SymbolTable.get?_eq_none_iff] at hcode
      obtain ⟨hname, rfl⟩ := hcode
      exact ⟨Or.inr hop2, hname⟩
  | store _ id b =>
      rw [encode_error_iff_of_store hop1 hop2, SymbolTable.get?_eq_none_iff] at hcode
      obtain ⟨hname, rfl⟩ := hcode
      exact ⟨Or.inl hop1, hname⟩
  | single _ a =>
      obtain ⟨f, hf⟩ := i.placeFirst_register names a
      rw [encode_error_iff_of_single hop1 hop2, hf] at hcode
      cases hcode
  | jump id =>
      rw [encode_error_iff_of_single hop1 hop2, placeFirst_displacement_error_iff] at hcode
      rcases hcode with ⟨hname, rfl⟩ | ⟨symbol, hname, ⟨hkind, rfl⟩ | ⟨hkind, hfar, rfl⟩⟩
      · exact ⟨rfl, hop1, SymbolTable.get?_eq_none_iff.mp hname⟩
      · exact ⟨rfl, id, symbol, hop1, hname, hkind⟩
      · exact ⟨rfl, rfl, id, symbol, hop1, hname, hkind, rfl, hfar⟩
  | interrupt v =>
      rw [encode_error_iff_of_single hop1 hop2, placeFirst_immediate_error_iff hop2] at hcode
      obtain ⟨hv, rfl⟩ := hcode
      exact ⟨rfl, hop1, hv⟩

/-- A target or a number in the first place has nothing behind it. -/
theorem op2_eq_none (h : i.Formed m) {op1 : Operand} (hop1 : i.op1 = some op1)
    (hkind : op1.kind = .displacement ∨ op1.kind = .immediate) : i.op2 = none := by
  have hpaired := h.paired
  rw [hop1] at hpaired
  generalize i.op2 = op2 at hpaired
  cases hpaired <;> simp_all [Operand.kind]

/-- In front of an address or a number stands a register. -/
theorem exists_register (h : i.Formed m) {op2 : Operand} (hop2 : i.op2 = some op2)
    (hkind : op2.kind = .address ∨ op2.kind = .immediate) :
    ∃ a, i.op1 = some (.register a) := by
  have hpaired := h.paired
  rw [hop2] at hpaired
  generalize i.op1 = op1 at hpaired
  cases hpaired <;> simp_all [Operand.kind]

/-- A fault is complained of. -/
theorem encode_of_fault (h : i.Formed m) (hfault : i.Fault names m d) :
    i.encode names = .error d := by
  cases d with
  | undeclared id =>
      obtain ⟨hop1 | hop2, hname⟩ := hfault
      · rw [encode_eq_error_iff hop1, placeFirst_address_error_iff]
        exact Or.inl ⟨SymbolTable.get?_eq_none_iff.mpr hname, rfl⟩
      · obtain ⟨a, hop1⟩ := h.exists_register hop2 (Or.inl rfl)
        obtain ⟨f, hiff⟩ := encode_error_iff_of_register hop1 names
        rw [hiff, placeSecond_address_error_iff hop2]
        exact ⟨SymbolTable.get?_eq_none_iff.mpr hname, rfl⟩
  | undeclaredTarget id =>
      obtain ⟨-, hop1, hname⟩ := hfault
      rw [encode_eq_error_iff hop1, placeFirst_displacement_error_iff]
      exact Or.inl (Or.inl ⟨SymbolTable.get?_eq_none_iff.mpr hname, rfl⟩)
  | targetNotLabel =>
      obtain ⟨-, id, symbol, hop1, hname, hkind⟩ := hfault
      rw [encode_eq_error_iff hop1, placeFirst_displacement_error_iff]
      exact Or.inl (Or.inr ⟨symbol, hname, Or.inl ⟨hkind, rfl⟩⟩)
  | displacementRange distance type =>
      obtain ⟨-, rfl, id, symbol, hop1, hname, hkind, rfl, hfar⟩ := hfault
      rw [encode_eq_error_iff hop1, placeFirst_displacement_error_iff]
      exact Or.inl (Or.inr ⟨symbol, hname, Or.inr ⟨hkind, hfar, rfl⟩⟩)
  | outOfRange v type =>
      cases type with
      | word =>
          obtain ⟨hop2, hv⟩ := hfault
          obtain ⟨a, hop1⟩ := h.exists_register hop2 (Or.inr rfl)
          obtain ⟨f, hiff⟩ := encode_error_iff_of_register hop1 names
          rw [hiff, placeSecond_immediate_error_iff hop2]
          exact ⟨hv, rfl⟩
      | byte =>
          obtain ⟨-, hop1, hv⟩ := hfault
          have hop2 := h.op2_eq_none hop1 (Or.inr rfl)
          rw [encode_error_iff_of_single hop1 hop2, placeFirst_immediate_error_iff hop2]
          exact ⟨hv, rfl⟩
  | _ => exact False.elim hfault

/-- **The encoder complains of the faults of an instruction** and of nothing else. -/
theorem encode_error_iff_fault (h : i.Formed m) :
    i.encode names = .error d ↔ i.Fault names m d :=
  ⟨h.fault_of_encode, h.encode_of_fault⟩

end Formed

end Instruction

/-! ### Faults on lines -/

/-- The bytes of an item, none if it cannot be encoded. -/
def Item.code (names : SymbolTable) (item : Item) : List UInt8 :=
  match item.encode names with
  | .ok e => e.bytes
  | .error _ => []

/-- The code of a program is made of its items one by one. -/
theorem Image.body_ofItems (names : SymbolTable) (items : List (Nat × Item)) :
    (ofItems names items).body = items.flatMap fun entry => entry.2.code names := by
  induction items with
  | nil => rfl
  | cons entry rest ih =>
      rw [List.flatMap_cons, ← ih, Item.code]
      cases hcode : entry.2.encode names with
      | ok e => exact body_ofItems_cons hcode rest
      | error d => simp [ofItems, body, encoded, hcode]

/-- A report lists the findings of its severity, under their lines. -/
theorem Report.mem_select_iff {severity : Severity} {findings : List (Nat × Finding)}
    {entry : LineRecord} :
    entry ∈ select severity findings ↔
      ∃ f, (entry.1, f) ∈ findings ∧ f.severity = severity ∧ f.diagnostic = entry.2 := by
  obtain ⟨n, d⟩ := entry
  simp only [select, List.mem_filterMap, Option.ite_none_right_eq_some, Option.some.injEq,
    Prod.mk.injEq]
  constructor
  · rintro ⟨⟨m, f⟩, hfound, hseverity, rfl, rfl⟩
    exact ⟨f, hfound, hseverity, rfl⟩
  · rintro ⟨f, hfound, hseverity, rfl⟩
    exact ⟨(n, f), hfound, hseverity, rfl, rfl⟩

namespace Layout

/-- An instruction on the line has the fault. -/
def FaultOn (l : Layout) (n : Nat) (d : Diagnostic) : Prop :=
  ∃ r ∈ l.records, ∃ m i, r.line.number = n ∧ r.verdict.effect = .collected m i ∧
    i.Fault l.names m d

variable {source : Text} {n : Nat} {d : Diagnostic}

/-- A fault on a line is the failure to encode the instruction there. -/
theorem faultOn_iff : (ofSource source).FaultOn n d ↔
    ∃ i, (n, .instruction i) ∈ (ofSource source).items ∧
      i.encode (ofSource source).names = .error d := by
  constructor
  · rintro ⟨r, hr, m, i, hn, heffect, hfault⟩
    have hadmits := admits_of_mem_records hr
    rw [heffect] at hadmits
    have hitem : r.verdict.effect.item? = some (.instruction i) := by
      rw [heffect]
      rfl
    exact ⟨i, mem_items_iff.mpr ⟨r, hr, hn, hitem⟩,
      hadmits.formed.1.encode_error_iff_fault.mpr hfault⟩
  · rintro ⟨i, hitem, hcode⟩
    obtain ⟨r, hr, m, hn, heffect, hformed, -⟩ := formed_of_mem_items hitem
    exact ⟨r, hr, m, i, hn, heffect, hformed.encode_error_iff_fault.mp hcode⟩

/-- A line has at most one fault: that of its item. -/
theorem faultOn_iff_lookup : (ofSource source).FaultOn n d ↔
    ((ofSource source).items.lookup n).bind (Item.fault? (ofSource source).names) = some d := by
  rw [faultOn_iff, Option.bind_eq_some_iff]
  constructor
  · rintro ⟨i, hitem, hcode⟩
    exact ⟨.instruction i, (Ascending.lookup_eq_some_iff (pairwise_items source)).mpr hitem,
      Item.fault?_eq_some_iff.mpr hcode⟩
  · rintro ⟨item, hlookup, hfault⟩
    have hitem := (Ascending.lookup_eq_some_iff (pairwise_items source)).mp hlookup
    have hcode := Item.fault?_eq_some_iff.mp hfault
    cases item with
    | instruction i => exact ⟨i, hitem, hcode⟩
    | data definition => cases hcode

/-- The errors on a line: those of the scan, then those of encoding. -/
theorem on_error_report (l : Layout) (n : Nat) :
    l.report.on .error n = (Report.ofFindings l.findings).on .error n ++
      (Report.ofFindings l.image.findings).on .error n := by
  rw [report, on_ofFindings, on_ofFindings, on_ofFindings, onLine_append, Report.select,
    List.filterMap_append, List.map_append]
  rfl

/-- Encoding adds no warning. -/
theorem warnings_report_eq_scan (l : Layout) :
    l.report.warnings = (Report.ofFindings l.findings).warnings := by
  have himage : Report.select .warning l.image.findings = [] :=
    Image.warnings_findings_ofItems l.names l.items
  have hreport : l.report.warnings =
      Report.select .warning l.findings ++ Report.select .warning l.image.findings :=
    List.filterMap_append
  rw [hreport, himage, List.append_nil]
  rfl

/-- The findings of a record have their weight. -/
theorem weighed_of_mem_records {r : Record} (hr : r ∈ (ofSource source).records) :
    r.verdict.Weighed := by
  rw [State.verdict_of_mem_run hr]
  exact r.before.weighed_judge r.line

/-- **Where a finding comes from**: the verdict on its line, the length of the segment
or the fault of an instruction. -/
theorem origin_of_mem_findings {f : Finding}
    (h : (n, f) ∈ (ofSource source).findings ++ (ofSource source).image.findings) :
    (∃ r ∈ (ofSource source).records, r.line.number = n ∧ f ∈ r.verdict.findings) ∨
      f = (Diagnostic.segmentLength (ofSource source).extent).asError ∨
      ∃ d, f = d.asError ∧ (ofSource source).FaultOn n d := by
  rcases List.mem_append.mp h with hscan | hencoding
  · rcases List.mem_append.mp hscan with hrecord | hlength
    · obtain ⟨r, hr, hmem⟩ := List.mem_flatMap.mp hrecord
      obtain ⟨f', hf, hpair⟩ := List.mem_map.mp hmem
      cases hpair
      exact .inl ⟨r, hr, rfl, hf⟩
    · rw [lengthFindings] at hlength
      split at hlength
      · cases List.mem_singleton.mp hlength
        exact .inr (.inl rfl)
      · cases hlength
  · obtain ⟨⟨m, item⟩, hitem, d, hpair, hcode⟩ := Image.exists_of_mem_findings hencoding
    cases hpair
    cases item with
    | instruction i => exact .inr (.inr ⟨d, rfl, faultOn_iff.mpr ⟨i, hitem, hcode⟩⟩)
    | data definition => cases hcode

/-- Everything found in a program has its weight, in the scan and in encoding. -/
theorem weighed_of_mem_findings {f : Finding}
    (h : (n, f) ∈ (ofSource source).findings ++ (ofSource source).image.findings) :
    f.Weighed := by
  rcases origin_of_mem_findings h with ⟨r, hr, -, hf⟩ | rfl | ⟨d, rfl, r, -, m, i, -, -, hfault⟩
  · exact weighed_of_mem_records hr f hf
  · refine Diagnostic.weighed_asError ?_
    intro hmissing
    cases hmissing
  · refine Diagnostic.weighed_asError ?_
    rintro rfl
    exact hfault

/-- What a verdict reports as an error is an error of the program. -/
theorem mem_errors_of_record {r : Record} (hr : r ∈ (ofSource source).records)
    (h : d.asError ∈ r.verdict.findings) :
    (r.line.number, d) ∈ (ofSource source).report.errors := by
  refine Report.mem_select_iff.mpr ⟨d.asError, ?_, rfl, rfl⟩
  have hfound : (r.line.number, d.asError) ∈ r.findings := List.mem_map_of_mem h
  exact List.mem_append_left _ (List.mem_append_left _ (List.mem_flatMap_of_mem hr hfound))

/-- Where an error comes from. -/
theorem origin_of_mem_errors (h : (n, d) ∈ (ofSource source).report.errors) :
    (∃ r ∈ (ofSource source).records, r.line.number = n ∧ d.asError ∈ r.verdict.findings) ∨
      d = .segmentLength (ofSource source).extent ∨ (ofSource source).FaultOn n d := by
  obtain ⟨⟨severity, d'⟩, hfound, hseverity, hdiagnostic⟩ := Report.mem_select_iff.mp h
  obtain rfl : severity = .error := hseverity
  obtain rfl : d' = d := hdiagnostic
  rcases origin_of_mem_findings hfound with hrecord | hlength | ⟨d, hd, hfault⟩
  · exact .inl hrecord
  · exact .inr (.inl (congrArg Finding.diagnostic hlength))
  · cases hd
    exact .inr (.inr hfault)

/-- What encoding adds to the report of the scan. -/
structure ReportsFaults (l : Layout) : Prop where
  warnings : l.report.warnings = (Report.ofFindings l.findings).warnings
  missing_of_warning : ∀ entry ∈ l.report.warnings, entry.2 = .missingOperand
  not_missing_of_error : ∀ entry ∈ l.report.errors, entry.2 ≠ .missingOperand
  /-- The errors on a line are those of the scan and at most one more. -/
  errors : ∀ n, ∃ new : Option Diagnostic,
    l.report.on .error n = (Report.ofFindings l.findings).on .error n ++ new.toList ∧
      ∀ d, new = some d ↔ l.FaultOn n d
  /-- An instruction on a line fails with the fault on that line. -/
  fails : ∀ n i, (n, .instruction i) ∈ l.items →
    ∀ d, i.encode l.names = .error d ↔ l.FaultOn n d
  /-- A line with a fault gives neither text nor bytes. -/
  silent : ∀ n d, l.FaultOn n d → l.image.hex.lookup n = none ∧
    ∀ entry ∈ l.items, entry.1 = n → entry.2.code l.names = []
  body : l.image.body = l.items.flatMap fun entry => entry.2.code l.names
  unreached : ∀ n i, (n, .instruction i) ∈ l.items →
    i.encode l.names ≠ .error .immediateFirst ∧ i.encode l.names ≠ .error .invalidOperands

/-- **Encoding reports the faults of instructions and nothing else.**  The warnings
stay those of the scan, all for missing values.  On each line the errors of the
scan are followed by the fault of the instruction there, if it has one; the line
then has no code, and the code of the program is that of the other items. -/
theorem reports_faults (source : Text) : (ofSource source).ReportsFaults where
  warnings := warnings_report_eq_scan _
  missing_of_warning := by
    intro entry hentry
    obtain ⟨f, hfound, hseverity, hdiagnostic⟩ := Report.mem_select_iff.mp hentry
    rw [← hdiagnostic]
    exact (weighed_of_mem_findings hfound).mp hseverity
  not_missing_of_error := by
    intro entry hentry hmissing
    obtain ⟨f, hfound, hseverity, hdiagnostic⟩ := Report.mem_select_iff.mp hentry
    have hwarning := (weighed_of_mem_findings hfound).mpr (hdiagnostic.trans hmissing)
    rw [hseverity] at hwarning
    cases hwarning
  errors := by
    intro n
    refine ⟨_, ?_, fun d => faultOn_iff_lookup.symm⟩
    rw [on_error_report, image, Image.on_findings (pairwise_items source)]
  fails := by
    intro n i hitem d
    have hlookup := (Ascending.lookup_eq_some_iff (pairwise_items source)).mpr hitem
    rw [faultOn_iff_lookup, hlookup, Option.bind_some, Item.fault?_eq_some_iff]
    rfl
  silent := by
    intro n d hfault
    rw [faultOn_iff_lookup, Option.bind_eq_some_iff] at hfault
    obtain ⟨item, hlookup, hfault⟩ := hfault
    have hcode := Item.fault?_eq_some_iff.mp hfault
    constructor
    · rw [image, Image.lookup_hex (pairwise_items source), hlookup, Option.bind_some, Item.hex?,
        hcode]
    · rintro ⟨m, other⟩ hentry rfl
      have hother := (Ascending.lookup_eq_some_iff (pairwise_items source)).mpr hentry
      rw [hlookup, Option.some.injEq] at hother
      rw [← hother, Item.code, hcode]
  body := Image.body_ofItems _ _
  unreached := by
    intro n i hitem
    obtain ⟨r, -, m, -, -, hformed, -⟩ := formed_of_mem_items hitem
    exact ⟨hformed.encode_error_iff_fault.mp, hformed.encode_error_iff_fault.mp⟩

/-- A jump back by one byte: there is nothing to report, and all of the code is there. -/
example :
    let l := ofSource "S SEGMENT\nL:\nX DB 1\nJA L\nS ENDS".toList
    l.report.errors = [] ∧ l.image.body = [0x01, 0x77, 0xFF] := by decide

/-- Three instructions that the scan takes and that cannot be encoded: only the data
is left of the code. -/
example :
    let l := ofSource "S SEGMENT\nX DB 1\nJA X\nMOV AX, Y\nINT 256\nS ENDS".toList
    (Report.ofFindings l.findings).errors = [] ∧
      l.report.errors = [(3, .targetNotLabel), (4, .undeclared "Y".toList),
        (5, .outOfRange 256 .byte)] ∧
      l.image.body = [0x01] := by decide

end Layout

end SegmentAssembler
