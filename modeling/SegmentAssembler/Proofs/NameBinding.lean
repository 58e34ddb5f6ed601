import SegmentAssembler.Proofs.OperandClasses
import SegmentAssembler.Proofs.RejectedLines
import SegmentAssembler.Proofs.TableConsistency

/-!
# Which operands are bound to which names

Three rules decide whether the operand `word` of an instruction stands for the
declared name `key`, and each of them ignores letter case in its own way:

    register    the letters a–z are compared, and a register comes first
    name        declared names are ASCII and are filed in capitals
    look-up     the capital form of the word in the full sense is looked up

So a word is bound to `key` if it is not the name of a register and its capital
form is `key` (`key?_eq_some_iff`).  For words of ASCII characters this is
agreement up to letter case (`operands_bind`), with two consequences that the
rules do not show at first sight: a declared name with the letters of a
register cannot be referred to, and a word with letters outside ASCII can be
bound to a name that it does not spell (`binding_beyond_letters`).
-/

namespace SegmentAssembler

/-! ### Entries and keys -/

namespace SymbolTable

variable {t : SymbolTable} {name key : Text}

/-- The entry that the look-up of a name finds. -/
def entry? (t : SymbolTable) (name : Text) : Option (Text × Symbol) :=
  t.entries.find? fun entry => entry.1 == Text.upper name

/-- What a name stands for is the symbol of this entry. -/
theorem get?_eq_map_entry? (t : SymbolTable) (name : Text) :
    t.get? name = (t.entry? name).map Prod.snd := by
  unfold get? entry?
  induction t.entries with
  | nil => rfl
  | cons entry rest ih =>
      by_cases hkey : entry.1 = Text.upper name
      · have hfound : (Text.upper name == entry.1) = true := beq_iff_eq.mpr hkey.symm
        have hfirst : (entry.1 == Text.upper name) = true := beq_iff_eq.mpr hkey
        rw [List.lookup_cons, hfound, List.find?_cons, hfirst]
        rfl
      · have hother : (Text.upper name == entry.1) = false := beq_eq_false_iff_ne.mpr (Ne.symm hkey)
        have hnext : (entry.1 == Text.upper name) = false := beq_eq_false_iff_ne.mpr hkey
        rw [List.lookup_cons, hother, List.find?_cons, hnext]
        exact ih

/-- The entry that is found has the capital form of the name for its key. -/
theorem map_fst_entry?_eq_some_iff :
    (t.entry? name).map Prod.fst = some key ↔ key ∈ t.keys ∧ Text.upper name = key := by
  constructor
  · intro h
    obtain ⟨entry, hfound, rfl⟩ := Option.map_eq_some_iff.mp h
    have hkey := List.find?_some hfound
    exact ⟨List.mem_map_of_mem (List.mem_of_find?_eq_some hfound), (beq_iff_eq.mp hkey).symm⟩
  · intro h
    obtain ⟨hkey, rfl⟩ := h
    obtain ⟨entry, hentry, heq⟩ := List.mem_map.mp hkey
    cases hfound : t.entry? name with
    | none => exact absurd (by simpa using heq) (List.find?_eq_none.mp hfound entry hentry)
    | some found =>
        have hfst := List.find?_some hfound
        simpa using hfst

end SymbolTable

/-! ### Names among the operands -/

/-- The name that an operand refers to. -/
def Operand.name? : Operand → Option Text
  | address name => some name
  | displacement name => some name
  | _ => none

namespace Instruction

/-- The operand in a place, counted from zero. -/
def operandAt? (i : Instruction) : Nat → Option Operand
  | 0 => i.op1
  | 1 => i.op2
  | _ => none

/-- The key of the entry that the operand in a place is bound to: the operand
refers to a name, and the look-up of this name finds the entry. -/
def key? (i : Instruction) (names : SymbolTable) (place : Nat) : Option Text :=
  (i.operandAt? place).bind fun op =>
    op.name?.bind fun name => (names.entry? name).map Prod.fst

end Instruction

/-- A name stays the same name in the place of a jump target. -/
theorem name?_asTarget (m : Mnemonic) (op1 op2 : Option Operand) :
    (asTarget m op1 op2).bind Operand.name? = op1.bind Operand.name? := by
  unfold asTarget
  split
  · split <;> rfl
  · rfl

/-- The name that a word refers to is the word. -/
theorem Operand.name?_ofWord_eq_some_iff {word name : Text} :
    (ofWord word).name? = some name ↔ ofWord word = .address name := by
  rcases ofWord_cases word with ⟨r, hr⟩ | ⟨v, hv⟩ | haddress
  · simp [hr, name?]
  · simp [hv, name?]
  · simp [haddress, name?]

/-! ### Bound operands -/

namespace Layout

variable {source word key : Text} {line : CodeLine} {i : Instruction} {place : Nat}

/-- A key has no other capital form, neither in ASCII nor in the full sense. -/
theorem upper_of_mem_keys (hkey : key ∈ (ofSource source).names.keys) :
    Text.asciiUpper key = key ∧ Text.upper key = key := by
  obtain ⟨id, hid, rfl⟩ := exists_name_of_mem_keys hkey
  rw [Text.upper_of_isName hid, Text.asciiUpper_asciiUpper, Text.upper_asciiUpper]
  exact ⟨rfl, Text.upper_of_isName hid⟩

/-- The name in one of the two operand places of a line. -/
theorem name?_operandAt? (hline : line ∈ programLines (splitLines source))
    (hi : (line.number, .instruction i) ∈ (ofSource source).items) (hplace : place < 2)
    (hword : line.rest[place]? = some word) :
    (i.operandAt? place).bind Operand.name? = (Operand.ofWord word).name? := by
  obtain ⟨line', hline', hnumber, m, -, hop1, hop2⟩ := exists_line_of_instruction hi
  obtain rfl : line' = line :=
    eq_of_number_eq_of_mem_codeLines ((List.takeWhile_sublist _).mem hline')
      ((List.takeWhile_sublist _).mem hline) hnumber
  match place with
  | 0 =>
      rw [Instruction.operandAt?, hop1, name?_asTarget, hword]
      rfl
  | 1 =>
      rw [Instruction.operandAt?, hop2, hword]
      rfl

/-- **A word is bound to the key that is its capital form**, unless it is a register. -/
theorem key?_eq_some_iff (hline : line ∈ programLines (splitLines source))
    (hi : (line.number, .instruction i) ∈ (ofSource source).items) (hplace : place < 2)
    (hword : line.rest[place]? = some word) (hkey : key ∈ (ofSource source).names.keys) :
    i.key? (ofSource source).names place = some key ↔
      (∀ r : Register, Text.sameLetters word r.name = false) ∧ Text.upper word = key := by
  have hname := name?_operandAt? hline hi hplace hword
  rw [Instruction.key?, ← Option.bind_assoc, hname, Option.bind_eq_some_iff]
  simp only [Operand.name?_ofWord_eq_some_iff, SymbolTable.map_fst_entry?_eq_some_iff]
  constructor
  · intro h
    obtain ⟨name, haddress, -, hupper⟩ := h
    obtain ⟨rfl, hregister, -⟩ := Operand.ofWord_eq_address_iff.mp haddress
    exact ⟨hregister, hupper⟩
  · intro h
    obtain ⟨hregister, hupper⟩ := h
    -- a word with a name for its capital form does not begin as a number does
    have hbegins : ¬ Operand.BeginsNumber word := by
      rw [← Operand.startsNumber_iff, Bool.not_eq_true]
      exact Operand.startsNumber_of_isCapitalName (hupper ▸ isCapitalName_of_mem_keys hkey)
    refine ⟨word, Operand.ofWord_eq_address_iff.mpr ⟨rfl, hregister, ?_⟩, hkey, hupper⟩
    intro v hv
    exact hbegins hv.1

/-- **The encoder finds the symbol of the key** that an operand is bound to. -/
theorem resolve_of_key? (h : i.key? (ofSource source).names place = some key) :
    ∃ name, (i.operandAt? place).bind Operand.name? = some name ∧
      ∀ symbol, (key, symbol) ∈ (ofSource source).names.entries →
        (ofSource source).names.resolve name = .ok symbol.address := by
  rw [Instruction.key?, ← Option.bind_assoc] at h
  obtain ⟨name, hname, hfound⟩ := Option.bind_eq_some_iff.mp h
  obtain ⟨entry, hentry, rfl⟩ := Option.map_eq_some_iff.mp hfound
  refine ⟨name, hname, ?_⟩
  intro symbol hsymbol
  -- no other entry has this key
  have hsame : entry = (entry.1, symbol) :=
    List.inj_on_of_nodup_map (nodup_keys_names source) (List.mem_of_find?_eq_some hentry)
      hsymbol rfl
  have hget : (ofSource source).names.get? name = some symbol := by
    rw [SymbolTable.get?_eq_map_entry?, hentry, hsame, Option.map_some]
  rw [SymbolTable.resolve, hget]

/-- In ASCII, words with the same capital form have the same letters. -/
theorem upper_eq_key_iff (hkey : key ∈ (ofSource source).names.keys)
    (hascii : ∀ c ∈ word, c.toNat < 128) :
    Text.upper word = key ↔ Text.sameLetters word key = true := by
  rw [Text.upper_of_ascii hascii, Text.sameLetters_iff, (upper_of_mem_keys hkey).1]

/-- **Operands are bound by their capital form, registers first.**  In any source,
an operand word of an instruction is bound to a declared name if and only if it
is not the name of a register and its capital form is the key of that name.  For
a word of ASCII characters this means that the word and the key agree up to
letter case and the key does not name a register; and such a word is bound to
nothing unless it is a name.  A word that agrees with the key is always bound to
it if the key does not name a register.  And the encoder takes the address of an
operand from the symbol of the key that it is bound to. -/
theorem operands_bind (source : Text) (line : CodeLine) (i : Instruction) (place : Nat)
    (word key : Text) (hline : line ∈ programLines (splitLines source))
    (hi : (line.number, .instruction i) ∈ (ofSource source).items) (hplace : place < 2)
    (hword : line.rest[place]? = some word) (hkey : key ∈ (ofSource source).names.keys) :
    (i.key? (ofSource source).names place = some key ↔
      (∀ r : Register, Text.sameLetters word r.name = false) ∧ Text.upper word = key) ∧
    ((∀ c ∈ word, c.toNat < 128) →
      (i.key? (ofSource source).names place = some key ↔
        Text.sameLetters word key = true ∧
          ∀ r : Register, Text.sameLetters key r.name = false) ∧
      (isName word = false → i.key? (ofSource source).names place ≠ some key)) ∧
    (Text.sameLetters word key = true →
      (∀ r : Register, Text.sameLetters key r.name = false) →
      i.key? (ofSource source).names place = some key) ∧
    (i.key? (ofSource source).names place = some key →
      ∃ name, (i.operandAt? place).bind Operand.name? = some name ∧
        ∀ symbol, (key, symbol) ∈ (ofSource source).names.entries →
          (ofSource source).names.resolve name = .ok symbol.address) := by
  have hbound := key?_eq_some_iff hline hi hplace hword hkey
  -- words with the same letters are the same registers
  have hregister : Text.sameLetters word key = true → ∀ r : Register,
      Text.sameLetters word r.name = Text.sameLetters key r.name := by
    intro hsame r
    rw [Text.sameLetters, Text.sameLetters, (Text.sameLetters_iff _ _).mp hsame]
  refine ⟨hbound, ?_, ?_, resolve_of_key?⟩
  · intro hascii
    have hletters := upper_eq_key_iff hkey hascii
    constructor
    · rw [hbound, hletters]
      constructor
      · intro h
        refine ⟨h.2, ?_⟩
        intro r
        rw [← hregister h.2 r]
        exact h.1 r
      · intro h
        refine ⟨?_, h.1⟩
        intro r
        rw [hregister h.1 r]
        exact h.2 r
    · intro hname hfound
      have hupper := (hbound.mp hfound).2
      obtain ⟨id, hid, rfl⟩ := exists_name_of_mem_keys hkey
      have hsame : Text.asciiUpper word = Text.asciiUpper id := by
        rw [← Text.upper_of_ascii hascii, ← Text.upper_of_isName hid, hupper]
      rw [← isName_asciiUpper, hsame, isName_asciiUpper, hid] at hname
      cases hname
  · intro hsame hfree
    refine hbound.mpr ⟨?_, ?_⟩
    · intro r
      rw [hregister hsame r]
      exact hfree r
    · rw [← Text.upper_asciiUpper, (Text.sameLetters_iff _ _).mp hsame, Text.upper_asciiUpper]
      exact (upper_of_mem_keys hkey).2

/-- A word that stands before the line that declares it, in other letters. -/
theorem operands_bind_forward :
    let source := "S SEGMENT\nmov bx, Sum-1\nSUM-1 DW 7\nS ENDS".toList
    let load : Instruction := ⟨⟨0x22, some 1, true, some 0, none, some 6⟩,
      some (.register .bx), some (.address "Sum-1".toList), 0, 4⟩
    (2, .instruction load) ∈ (ofSource source).items ∧
      load.key? (ofSource source).names 1 = some "SUM-1".toList ∧
      (ofSource source).names.resolve "Sum-1".toList = .ok 4 := by
  intro source load
  have hload : (2, .instruction load) ∈ (ofSource source).items := by decide
  obtain ⟨-, -, hsame, hresolve⟩ :=
    operands_bind source ⟨2, "mov".toList, ["bx".toList, "Sum-1".toList]⟩ load 1
      "Sum-1".toList "SUM-1".toList (by decide) hload (by decide) rfl (by decide)
  have hbound : load.key? (ofSource source).names 1 = some "SUM-1".toList := by
    refine hsame (by decide) ?_
    intro r
    cases r <;> decide
  obtain ⟨name, hname, haddress⟩ := hresolve hbound
  cases hname
  exact ⟨hload, hbound, haddress ⟨.word, 4⟩ (by decide)⟩

/-- **Letters alone do not decide.**  The declared name `AX` is not what the operand
`AX` is bound to, and the operand `ſ`, which is no name, is bound to the declared
name `S`. -/
theorem binding_beyond_letters :
    let hidden := "P SEGMENT\nAX DW 1\nMOV BX, AX".toList
    let spelled := "P SEGMENT\nS DW 1\nMOV BX, ".toList ++ ['ſ']
    let move : Instruction := ⟨⟨0x22, some 1, true, some 3, none, none⟩,
      some (.register .bx), some (.register .ax), 2, 2⟩
    let load : Instruction := ⟨⟨0x22, some 1, true, some 0, none, some 6⟩,
      some (.register .bx), some (.address ['ſ']), 2, 4⟩
    (⟨3, "MOV".toList, ["BX".toList, "AX".toList]⟩ ∈ programLines (splitLines hidden) ∧
      (3, .instruction move) ∈ (ofSource hidden).items ∧
      "AX".toList ∈ (ofSource hidden).names.keys ∧
      Text.sameLetters "AX".toList "AX".toList = true ∧
      move.key? (ofSource hidden).names 1 ≠ some "AX".toList) ∧
    (⟨3, "MOV".toList, ["BX".toList, ['ſ']]⟩ ∈ programLines (splitLines spelled) ∧
      (3, .instruction load) ∈ (ofSource spelled).items ∧
      "S".toList ∈ (ofSource spelled).names.keys ∧
      load.key? (ofSource spelled).names 1 = some "S".toList ∧
      Text.sameLetters ['ſ'] "S".toList = false ∧ isName ['ſ'] = false) := by
  decide

end Layout

end SegmentAssembler
