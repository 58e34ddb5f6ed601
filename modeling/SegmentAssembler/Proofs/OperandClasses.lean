import SegmentAssembler.Proofs.Renaming
import SegmentAssembler.Proofs.StaticRules

/-!
# What kind of operand a word is

Words are sorted by a chain of tests: the name of a register first, then a
character that stands alone, then a number if the word begins like one, and a
name in all other cases, also if the number could not be read.  The order of
the tests does not show in the result.  Each kind has a condition of its own,
and no two of the conditions hold of one word:

* `ofWord_eq_register_iff` — the word is the name of a register;
* `ofWord_eq_immediate_iff` — the word begins as a number does and is read as one;
* `ofWord_eq_address_iff` — neither of the two, and the name is the whole word;
* `line_of_displacement` — the target of a jump is no kind of word but the place
  of a name: it stands alone after `JA`.

`operands_classified` is all of this together.
-/

namespace SegmentAssembler

namespace Operand

/-- The word begins with a decimal digit, or with a minus sign and one. -/
inductive BeginsNumber : Text → Prop
  | digit {c : Char} (h : c.isDigit = true) (rest : Text) : BeginsNumber (c :: rest)
  | minus {c : Char} (h : c.isDigit = true) (rest : Text) : BeginsNumber ('-' :: c :: rest)

/-- Decimal digits are the digits of ASCII. -/
theorem isDecimalDigit_iff {c : Char} : isDecimalDigit c = true ↔ c.isDigit = true := by
  have hcode : c.toNat = c.val.toNat := rfl
  have hdigits : '0'.val.toNat = 48 ∧ '9'.val.toNat = 57 := ⟨rfl, rfl⟩
  simp only [Char.isDigit, Bool.and_eq_true, decide_eq_true_eq, UInt32.le_iff_toNat_le, ge_iff_le]
  constructor
  · intro h
    have hrange := toNat_of_isDecimalDigit h
    omega
  · intro h
    have hrange : '0' ≤ c ∧ c ≤ '9' := h
    have hvalue : Numeral.digitValue c = c.toNat - '0'.toNat := by
      rw [Numeral.digitValue, if_pos hrange]
    have hzero : '0'.toNat = 48 := rfl
    refine decide_eq_true ?_
    omega

/-- What the reader takes for the beginning of a number, said without it. -/
theorem startsNumber_iff {word : Text} : startsNumber word = true ↔ BeginsNumber word := by
  constructor
  · intro h
    unfold startsNumber at h
    split at h
    · exact .minus (isDecimalDigit_iff.mp h) _
    · exact .digit (isDecimalDigit_iff.mp h) _
    · cases h
  · intro h
    cases h with
    | @digit c hdigit rest =>
        have hminus : c ≠ '-' := by
          intro heq
          subst heq
          cases hdigit
        simpa [startsNumber, hminus] using isDecimalDigit_iff.mpr hdigit
    | minus hdigit rest => exact isDecimalDigit_iff.mpr hdigit

/-! ### The condition of each kind -/

variable {word : Text}

/-- No word is both a register and a number. -/
theorem read?_of_register {r : Register} (h : Text.sameLetters word r.name = true) :
    Numeral.read? word = none := by
  rw [← Numeral.read?_asciiUpper, (Text.sameLetters_iff _ _).mp h]
  cases r <;> decide

/-- A word is a register exactly if it has the letters of its name, in either case. -/
theorem ofName?_eq_some_iff_sameLetters {r : Register} :
    Register.ofName? word = some r ↔ Text.sameLetters word r.name = true := by
  have hcapital : Text.asciiUpper r.name = r.name := by cases r <;> decide
  rw [Register.ofName?_eq_some_iff, Text.sameLetters_iff, hcapital]

/-- A word is no register if it has the letters of none. -/
theorem ofName?_eq_none_iff :
    Register.ofName? word = none ↔ ∀ r : Register, Text.sameLetters word r.name = false := by
  simp only [Option.eq_none_iff_forall_ne_some, ne_eq, ofName?_eq_some_iff_sameLetters,
    Bool.not_eq_true]

/-- **A register** is a word with the letters of its name. -/
theorem ofWord_eq_register_iff {r : Register} :
    ofWord word = .register r ↔ Text.sameLetters word r.name = true := by
  rw [← ofName?_eq_some_iff_sameLetters, ofWord_eq]
  cases Register.ofName? word with
  | some r' => simp
  | none =>
      dsimp only
      split
      · unfold numberOrName
        split <;> simp
      · simp

/-- **A number** begins as one and is read as one. -/
theorem ofWord_eq_immediate_iff {v : Int} :
    ofWord word = .immediate v ↔ BeginsNumber word ∧ Numeral.read? word = some v := by
  rw [← startsNumber_iff, ofWord_eq]
  cases hregister : Register.ofName? word with
  | some r =>
      -- the name of a register is not read as a number
      have hnone := read?_of_register (ofName?_eq_some_iff_sameLetters.mp hregister)
      simp [hnone]
  | none =>
      dsimp only
      split
      · rename_i hstarts
        unfold numberOrName
        cases hread : Numeral.read? word <;> simp [hstarts]
      · rename_i hstarts
        simp [hstarts]

/-- **A name** is every other word, and it is kept as it is. -/
theorem ofWord_eq_address_iff {name : Text} :
    ofWord word = .address name ↔
      name = word ∧ (∀ r : Register, Text.sameLetters word r.name = false) ∧
        ∀ v, ¬ (BeginsNumber word ∧ Numeral.read? word = some v) := by
  have hregister : ∀ r : Register,
      Text.sameLetters word r.name = false ↔ ofWord word ≠ .register r := by
    intro r
    rw [← Bool.not_eq_true, ← ofWord_eq_register_iff]
  have hnumber : ∀ v, (BeginsNumber word ∧ Numeral.read? word = some v) ↔
      ofWord word = .immediate v := by
    intro v
    rw [ofWord_eq_immediate_iff]
  simp only [hregister, hnumber]
  rcases ofWord_cases word with ⟨r, hr⟩ | ⟨v, hv⟩ | haddress
  · simp [hr]
  · simp [hv]
  · simp [haddress, eq_comm]

end Operand

/-! ### Operands in their places -/

namespace Layout

variable {source : Text} {n : Nat} {i : Instruction}

/-- The operands of an instruction are the words of its line, up to the place of
a jump target. -/
theorem exists_line_of_instruction (h : (n, .instruction i) ∈ (ofSource source).items) :
    ∃ line ∈ programLines (splitLines source), line.number = n ∧
      ∃ m, Mnemonic.ofName? line.head = some m ∧
        i.op1 = asTarget m (line.rest[0]?.map Operand.ofWord) i.op2 ∧
        i.op2 = line.rest[1]?.map Operand.ofWord := by
  obtain ⟨r, hr, hnumber, hitem⟩ := mem_items_iff.mp h
  obtain ⟨m, heffect⟩ := Effect.eq_collected_of_item? hitem
  have hadmits := admits_of_mem_records hr
  have hmem := line_mem_programLines hr
  have hsays := Statement.says_ofWords
    (CodeLine.isEnd_eq_false_iff.mp (isEnd_eq_false_of_mem_programLines hmem)) r.line.rest
  rw [heffect] at hadmits
  refine ⟨r.line, hmem, hnumber, m, ?_⟩
  cases hadmits with
  | collected hphase hwords hop1 hop2 hrow htop =>
      rw [hwords] at hsays
      cases hsays with
      | instruction hhead => exact ⟨hhead, hop1, hop2⟩

/-- **A jump target stands alone after the jump.** -/
theorem line_of_displacement (h : (n, .instruction i) ∈ (ofSource source).items) (name : Text) :
    i.op2 ≠ some (.displacement name) ∧
      (i.op1 = some (.displacement name) → i.op2 = none ∧
        ∃ line ∈ programLines (splitLines source), line.number = n ∧
          Mnemonic.ofName? line.head = some .ja ∧ line.rest = [name]) := by
  obtain ⟨line, hline, hnumber, m, hhead, hop1, hop2⟩ := exists_line_of_instruction h
  have hword : ∀ k : Nat, line.rest[k]?.map Operand.ofWord ≠ some (.displacement name) := by
    intro k heq
    obtain ⟨word, -, hword⟩ := Option.map_eq_some_iff.mp heq
    exact Operand.ofWord_ne_displacement word name hword
  refine ⟨hop2 ▸ hword 1, ?_⟩
  intro htarget
  rw [htarget] at hop1
  unfold asTarget at hop1
  split at hop1
  · rename_i name' hfirst hsecond
    split at hop1
    · rename_i hjump
      cases hop1
      obtain rfl : m = .ja := by
        cases m with
        | ja => rfl
        | _ => cases hjump
      obtain ⟨word, hget, hclass⟩ := Option.map_eq_some_iff.mp hfirst
      obtain ⟨rfl, -⟩ := Operand.ofWord_eq_address_iff.mp hclass
      have hnone : line.rest[1]? = none := by
        rw [hsecond] at hop2
        exact Option.map_eq_none_iff.mp hop2.symm
      have halone : line.rest = [name] := by
        match hrest : line.rest with
        | [] => simp [hrest] at hget
        | [first] => simpa [hrest] using hget
        | first :: second :: rest => simp [hrest] at hnone
      exact ⟨hsecond, line, hline, hnumber, hhead, halone⟩
    · exact absurd hop1.symm (hword 0)
  · exact absurd hop1.symm (hword 0)

end Layout

/-- **Every operand word has exactly one kind.**  It is a register if it has the
letters of its name, in either case; it is a number if it begins as a number does
and is read as that number, also if it is a single digit; otherwise it is the
name that it is, letter by letter.  It is never the target of a jump by itself.
Hence names that are no registers are names, no word is both a register and a
number, and in an instruction of a program the target of a jump stands alone
after `JA`. -/
theorem operands_classified (word : Text) :
    (∀ r, Operand.ofWord word = .register r ↔ Text.sameLetters word r.name = true) ∧
    (∀ v, Operand.ofWord word = .immediate v ↔
      Operand.BeginsNumber word ∧ Numeral.read? word = some v) ∧
    (∀ name, Operand.ofWord word = .address name ↔
      name = word ∧ (∀ r : Register, Text.sameLetters word r.name = false) ∧
        ∀ v, ¬ (Operand.BeginsNumber word ∧ Numeral.read? word = some v)) ∧
    (∀ name, Operand.ofWord word ≠ .displacement name) ∧
    (isName word = true → (∀ r : Register, Text.sameLetters word r.name = false) →
      Operand.ofWord word = .address word) ∧
    (∀ r : Register, Text.sameLetters word r.name = true → Numeral.read? word = none) ∧
    ∀ source n i, (n, .instruction i) ∈ (Layout.ofSource source).items → ∀ name,
      i.op2 ≠ some (.displacement name) ∧
        (i.op1 = some (.displacement name) → i.op2 = none ∧
          ∃ line ∈ programLines (splitLines source), line.number = n ∧
            Mnemonic.ofName? line.head = some .ja ∧ line.rest = [name]) := by
  refine ⟨fun r => Operand.ofWord_eq_register_iff, fun v => Operand.ofWord_eq_immediate_iff,
    fun name => Operand.ofWord_eq_address_iff, Operand.ofWord_ne_displacement word, ?_, ?_, ?_⟩
  · intro hname hregister
    exact Operand.ofWord_of_isName hname (Operand.ofName?_eq_none_iff.mpr hregister)
  · intro r hr
    exact Operand.read?_of_register hr
  · intro source n i hi name
    exact Layout.line_of_displacement hi name

/-- A hexadecimal number, which begins with a digit, beside a name that does not;
and a jump whose target has a digit behind its hyphen. -/
theorem operands_classified_hyphen :
    let source := "S SEGMENT\nL-1:\nja l-1\nS ENDS".toList
    let jump : Instruction := ⟨⟨0x77, none, false, none, none, some 0⟩,
      some (.displacement "l-1".toList), none, 0, 2⟩
    Operand.ofWord "0fah".toList = .immediate 250 ∧
      Operand.ofWord "fah".toList = .address "fah".toList ∧
      (3, .instruction jump) ∈ (Layout.ofSource source).items ∧
      ∃ line ∈ programLines (splitLines source), line.number = 3 ∧
        Mnemonic.ofName? line.head = some .ja ∧ line.rest = ["l-1".toList] := by
  intro source jump
  have hdigit : Operand.BeginsNumber "0fah".toList := .digit (by decide) _
  have hjump : (3, .instruction jump) ∈ (Layout.ofSource source).items := by decide
  refine ⟨((operands_classified _).2.1 250).mpr ⟨hdigit, by decide⟩, ?_, hjump, ?_⟩
  · refine (operands_classified _).2.2.2.2.1 (by decide) ?_
    intro r
    cases r <;> decide
  · exact (((operands_classified []).2.2.2.2.2.2 source 3 jump hjump _).2 rfl).2

end SegmentAssembler
