import SegmentAssembler.Encoding.Instruction
import SegmentAssembler.Proofs.Admission

/-!
# The forms of encoded instructions

The scan collects an instruction only if its operands stand in the opcode
table, and reserves as many bytes as the kinds of its operands call for; both
facts together are `Instruction.Formed`.  The encoder goes through the
operands one by one and would take any template.  Of formed instructions only
seven shapes are left, and `Parts.Composed` lists what the encoder puts behind
the opcode for each of them:

    reg , reg     mode 3   first   second
    reg , number  mode 3   0       first     number
    reg , name    mode 0   first   6         address
    name, reg     mode 0   second  6         address
    reg           mode 3   4       first
    target        distance
    number        number

* `Formed.composed` — whatever the encoder puts behind the opcode of a formed
  instruction is composed in this way;
* `Formed.exists_composed` — so its bytes number exactly what was reserved, and
  the encoder's final cut to that length does nothing.
-/

namespace SegmentAssembler

/-- The operands stand in the opcode table under the mnemonic, and the length
is the one that they call for. -/
structure Instruction.Formed (m : Mnemonic) (i : Instruction) : Prop where
  row : Template.lookup? m (i.op1.map Operand.kind) (i.op2.map Operand.kind) = some i.template
  length : i.length = Instruction.lengthOf i.op1 i.op2

/-- What follows the opcode, by the shapes of the operands.  Names are looked
up in the table; `here` is the address of the instruction. -/
inductive Parts.Composed (names : SymbolTable) (here : Nat) :
    Operand → Option Operand → Parts → Prop
  | registers (a b : Register) :
      Composed names here (.register a) (some (.register b))
        ⟨.fields ⟨3, a.index, b.index⟩, none⟩
  | constant (a : Register) {v : Int} (hv : DataType.word.contains v = true) :
      Composed names here (.register a) (some (.immediate v))
        ⟨.fields ⟨3, 0, a.index⟩, some (DataType.word.store v)⟩
  | load (a : Register) {name : Text} {symbol : Symbol} (hname : names.get? name = some symbol) :
      Composed names here (.register a) (some (.address name))
        ⟨.fields ⟨0, a.index, 6⟩, some symbol.address⟩
  | store (b : Register) {name : Text} {symbol : Symbol} (hname : names.get? name = some symbol) :
      Composed names here (.address name) (some (.register b))
        ⟨.fields ⟨0, b.index, 6⟩, some symbol.address⟩
  | single (a : Register) :
      Composed names here (.register a) none ⟨.fields ⟨3, 4, a.index⟩, none⟩
  | jump {name : Text} {symbol : Symbol} (hname : names.get? name = some symbol)
      (hkind : symbol.kind = .label)
      (hrange : DataType.byte.contains (symbol.address - here) = true) :
      Composed names here (.displacement name) none
        ⟨.literal (UInt8.ofNat (DataType.byte.store (symbol.address - here))), none⟩
  | interrupt {v : Int} (hv : DataType.byte.contains v = true) :
      Composed names here (.immediate v) none
        ⟨.literal (UInt8.ofNat (DataType.byte.store v)), none⟩

/-- The operand behind a kind: what the opcode table says of the kinds, said
of the operands themselves. -/
theorem Operand.of_map_kind {op : Option Operand} {k : Option Operand.Kind}
    (h : op.map Operand.kind = k) :
    match k with
    | none => op = none
    | some .register => ∃ r, op = some (.register r)
    | some .address => ∃ name, op = some (.address name)
    | some .immediate => ∃ v, op = some (.immediate v)
    | some .displacement => ∃ name, op = some (.displacement name) := by
  subst h
  cases op with
  | none => rfl
  | some op => cases op <;> exact ⟨_, rfl⟩

/-- A name that resolves stands in the table with its address. -/
theorem SymbolTable.get?_of_resolve {names : SymbolTable} {name : Text} {address : Nat}
    (h : names.resolve name = .ok address) :
    ∃ symbol, names.get? name = some symbol ∧ symbol.address = address := by
  unfold resolve at h
  split at h
  · rename_i symbol hname
    exact ⟨symbol, hname, by simpa using h⟩
  · exact nomatch h

namespace Instruction

variable {i : Instruction} {names : SymbolTable} {bytes : List UInt8}

/-- With an operand, the bytes are the opcode and what the two placements make. -/
theorem placed_of_plainBytes {op1 : Operand} (hop1 : i.op1 = some op1)
    (h : i.plainBytes names = .ok bytes) :
    ∃ p q, i.placeFirst names op1 = .ok p ∧ i.placeSecond names p = .ok q ∧
      bytes = join i.template q := by
  simp only [plainBytes, hop1] at h
  cases hfirst : i.placeFirst names op1 with
  | error d => simp [hfirst] at h
  | ok p =>
      cases hsecond : i.placeSecond names p with
      | error d => simp [hfirst, hsecond] at h
      | ok q =>
          refine ⟨p, q, rfl, hsecond, ?_⟩
          simpa [hfirst, hsecond] using h.symm

/-! ### Placements by the shapes of the operands -/

section Shapes

variable {p q : Parts} {a b : Register} {name : Text} {v : Int}

/-- Two registers become the two fields of the second byte. -/
private theorem composed_registers (hop2 : i.op2 = some (.register b))
    (hdirection : i.template.direction = some 1) (hmode : i.template.mode = some 3)
    (hp : i.placeFirst names (.register a) = .ok p) (hq : i.placeSecond names p = .ok q) :
    q.Composed names i.address (.register a) (some (.register b)) := by
  simp only [placeFirst, hdirection, hmode, Option.getD_some, Except.ok.injEq] at hp
  subst hp
  simp only [placeSecond, hop2, hdirection, Except.ok.injEq] at hq
  subst hq
  exact .registers a b

/-- A register and a number: a field, and the word behind it. -/
private theorem composed_constant (hop2 : i.op2 = some (.immediate v))
    (hdirection : i.template.direction = none) (hmode : i.template.mode = some 3)
    (hreg : i.template.reg = some 0)
    (hp : i.placeFirst names (.register a) = .ok p) (hq : i.placeSecond names p = .ok q) :
    q.Composed names i.address (.register a) (some (.immediate v)) := by
  simp only [placeFirst, hdirection, hmode, hreg, Option.getD_some, Except.ok.injEq] at hp
  subst hp
  simp only [placeSecond, hop2] at hq
  split at hq
  · rename_i hv
    cases hq
    exact .constant a hv
  · exact nomatch hq

/-- A register and an address: a field, and the word behind it. -/
private theorem composed_load (hop2 : i.op2 = some (.address name))
    (hdirection : i.template.direction = some 1) (hmode : i.template.mode = some 0)
    (hrm : i.template.rm = some 6)
    (hp : i.placeFirst names (.register a) = .ok p) (hq : i.placeSecond names p = .ok q) :
    q.Composed names i.address (.register a) (some (.address name)) := by
  simp only [placeFirst, hdirection, hmode, Option.getD_some, Except.ok.injEq] at hp
  subst hp
  simp only [placeSecond, hop2, hrm, Option.getD_some] at hq
  cases hresolve : names.resolve name with
  | error d => simp [hresolve] at hq
  | ok address =>
      obtain ⟨symbol, hname, rfl⟩ := SymbolTable.get?_of_resolve hresolve
      simp only [hresolve, Except.ok.injEq] at hq
      subst hq
      exact .load a hname

/-- An address and a register: the same the other way round. -/
private theorem composed_store (hop2 : i.op2 = some (.register b))
    (hdirection : i.template.direction = some 0) (hmode : i.template.mode = some 0)
    (hrm : i.template.rm = some 6)
    (hp : i.placeFirst names (.address name) = .ok p) (hq : i.placeSecond names p = .ok q) :
    q.Composed names i.address (.address name) (some (.register b)) := by
  simp only [placeFirst, hmode, hrm, Option.getD_some] at hp
  cases hresolve : names.resolve name with
  | error d => simp [hresolve] at hp
  | ok address =>
      obtain ⟨symbol, hname, rfl⟩ := SymbolTable.get?_of_resolve hresolve
      simp only [hresolve, Except.ok.injEq] at hp
      subst hp
      simp only [placeSecond, hop2, hdirection] at hq
      cases hq
      exact .store b hname

/-- A register alone becomes one field; the other is fixed. -/
private theorem composed_single (hop2 : i.op2 = none)
    (hdirection : i.template.direction = none) (hmode : i.template.mode = some 3)
    (hreg : i.template.reg = some 4)
    (hp : i.placeFirst names (.register a) = .ok p) (hq : i.placeSecond names p = .ok q) :
    q.Composed names i.address (.register a) none := by
  simp only [placeFirst, hdirection, hmode, hreg, Option.getD_some, Except.ok.injEq] at hp
  subst hp
  simp only [placeSecond, hop2, hreg, Option.getD_some, Except.ok.injEq] at hq
  subst hq
  exact .single a

/-- A jump has the distance for its second byte. -/
private theorem composed_jump (hop2 : i.op2 = none)
    (hp : i.placeFirst names (.displacement name) = .ok p)
    (hq : i.placeSecond names p = .ok q) :
    q.Composed names i.address (.displacement name) none := by
  simp only [placeFirst, distance] at hp
  cases hname : names.get? name with
  | none => simp [hname] at hp
  | some symbol =>
      by_cases hkind : symbol.kind = .label
      · by_cases hrange : DataType.byte.contains (symbol.address - i.address) = true
        · simp only [hname, hkind, hrange, ne_eq, not_true_eq_false, if_false, if_true,
            Except.ok.injEq] at hp
          subst hp
          simp only [placeSecond, hop2, Except.ok.injEq] at hq
          subst hq
          exact .jump hname hkind hrange
        · simp [hname, hkind, hrange] at hp
      · simp [hname, hkind] at hp

/-- An interrupt has its number for its second byte. -/
private theorem composed_interrupt (hop2 : i.op2 = none)
    (hp : i.placeFirst names (.immediate v) = .ok p) (hq : i.placeSecond names p = .ok q) :
    q.Composed names i.address (.immediate v) none := by
  simp only [placeFirst, hop2, Option.isSome_none, Bool.false_eq_true, if_false] at hp
  split at hp
  · rename_i hv
    cases hp
    simp only [placeSecond, hop2, Except.ok.injEq] at hq
    subst hq
    exact .interrupt hv
  · exact nomatch hp

end Shapes

/-! ### Formed instructions -/

namespace Formed

variable {m : Mnemonic} {p q : Parts} {op1 : Operand}

/-- A formed instruction has a first operand. -/
theorem exists_op1 (h : i.Formed m) : ∃ op1, i.op1 = some op1 := by
  cases hop1 : i.op1 with
  | none =>
      have hrow := h.row
      simp [hop1, Template.lookup?] at hrow
  | some op1 => exact ⟨op1, rfl⟩

/-- **Every encoded instruction has one of the seven shapes.**  The proof goes
through the rows of the opcode table; each row fixes the kinds of the operands
and the fields of the template that the placements look at. -/
theorem composed (h : i.Formed m) (hop1 : i.op1 = some op1)
    (hp : i.placeFirst names op1 = .ok p) (hq : i.placeSecond names p = .ok q) :
    q.Composed names i.address op1 i.op2 := by
  obtain ⟨hrow, -⟩ := h
  unfold Template.lookup? at hrow
  split at hrow
  case h_12 => exact nomatch hrow
  all_goals rw [Option.some.injEq] at hrow
  case h_1 hk1 hk2 | h_5 hk1 hk2 =>
    obtain ⟨a, ha⟩ := Operand.of_map_kind hk1
    obtain ⟨b, hb⟩ := Operand.of_map_kind hk2
    obtain rfl : op1 = .register a := by simpa [hop1] using ha
    rw [hb]
    exact composed_registers hb (by rw [← hrow]) (by rw [← hrow]) hp hq
  case h_2 hk1 hk2 | h_6 hk1 hk2 =>
    obtain ⟨a, ha⟩ := Operand.of_map_kind hk1
    obtain ⟨v, hv⟩ := Operand.of_map_kind hk2
    obtain rfl : op1 = .register a := by simpa [hop1] using ha
    rw [hv]
    exact composed_constant hv (by rw [← hrow]) (by rw [← hrow]) (by rw [← hrow]) hp hq
  case h_3 hk1 hk2 | h_7 hk1 hk2 =>
    obtain ⟨a, ha⟩ := Operand.of_map_kind hk1
    obtain ⟨name, hname⟩ := Operand.of_map_kind hk2
    obtain rfl : op1 = .register a := by simpa [hop1] using ha
    rw [hname]
    exact composed_load hname (by rw [← hrow]) (by rw [← hrow]) (by rw [← hrow]) hp hq
  case h_4 hk1 hk2 | h_8 hk1 hk2 =>
    obtain ⟨name, hname⟩ := Operand.of_map_kind hk1
    obtain ⟨b, hb⟩ := Operand.of_map_kind hk2
    obtain rfl : op1 = .address name := by simpa [hop1] using hname
    rw [hb]
    exact composed_store hb (by rw [← hrow]) (by rw [← hrow]) (by rw [← hrow]) hp hq
  case h_9 hk1 hk2 =>
    obtain ⟨a, ha⟩ := Operand.of_map_kind hk1
    have hnone := Operand.of_map_kind hk2
    obtain rfl : op1 = .register a := by simpa [hop1] using ha
    rw [hnone]
    exact composed_single hnone (by rw [← hrow]) (by rw [← hrow]) (by rw [← hrow]) hp hq
  case h_10 hk1 hk2 =>
    obtain ⟨name, hname⟩ := Operand.of_map_kind hk1
    have hnone := Operand.of_map_kind hk2
    obtain rfl : op1 = .displacement name := by simpa [hop1] using hname
    rw [hnone]
    exact composed_jump hnone hp hq
  case h_11 hk1 hk2 =>
    obtain ⟨v, hv⟩ := Operand.of_map_kind hk1
    have hnone := Operand.of_map_kind hk2
    obtain rfl : op1 = .immediate v := by simpa [hop1] using hv
    rw [hnone]
    exact composed_interrupt hnone hp hq

end Formed

/-- Composed parts and the opcode take as many bytes as the operands call for. -/
theorem length_join_of_composed {t : Template} {here : Nat} {op1 : Operand}
    {op2 : Option Operand} {q : Parts} (h : q.Composed names here op1 op2) :
    (join t q).length = lengthOf (some op1) op2 := by
  cases h <;> rfl

/-- Bytes of the right number are neither cut nor filled up. -/
theorem resize_of_length_eq {n : Nat} (h : bytes.length = n) : resize n bytes = bytes := by
  subst h
  simp [resize]

/-- The plain bytes behind the encoded ones, before they are cut or filled. -/
theorem plainBytes_of_encode {op1 : Operand} (hop1 : i.op1 = some op1) {e : Encoded}
    (h : i.encode names = .ok e) :
    ∃ plain, i.plainBytes names = .ok plain ∧ e.bytes = resize i.length plain := by
  simp only [encode, Instruction.bytes, hop1] at h
  cases hplain : i.plainBytes names with
  | error d =>
      rw [hplain] at h
      exact nomatch h
  | ok plain =>
      rw [hplain] at h
      cases h
      exact ⟨plain, rfl, rfl⟩

/-- **Encoded instructions are exactly opcode, second byte and tail.**  For a
formed instruction these make up the reserved length, so cutting or filling to
that length does nothing. -/
theorem Formed.exists_composed {m : Mnemonic} (h : i.Formed m) {e : Encoded}
    (hcode : i.encode names = .ok e) :
    ∃ op1 p q, i.op1 = some op1 ∧ i.placeFirst names op1 = .ok p ∧
      i.placeSecond names p = .ok q ∧ q.Composed names i.address op1 i.op2 ∧
      (join i.template q).length = i.length ∧ e.bytes = join i.template q := by
  obtain ⟨op1, hop1⟩ := h.exists_op1
  obtain ⟨plain, hplain, hbytes⟩ := plainBytes_of_encode hop1 hcode
  obtain ⟨p, q, hp, hq, hjoin⟩ := placed_of_plainBytes hop1 hplain
  have hcomposed := h.composed hop1 hp hq
  have hlength : (join i.template q).length = i.length := by
    rw [length_join_of_composed hcomposed, h.length, hop1]
  refine ⟨op1, p, q, hop1, hp, hq, hcomposed, hlength, ?_⟩
  rw [hbytes, hjoin, resize_of_length_eq hlength]

end Instruction

/-- What the scan collects is formed, and stands where the counter was. -/
theorem State.Admits.formed {s : State} {line : CodeLine} {m : Mnemonic} {i : Instruction}
    (h : s.Admits line (.collected m i)) : i.Formed m ∧ i.address = s.counter := by
  cases h with
  | collected hphase hwords hop1 hop2 hrow htop => exact ⟨⟨hrow, rfl⟩, rfl⟩

end SegmentAssembler
