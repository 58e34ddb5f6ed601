import SegmentAssembler.Proofs.NameResolution

/-!
# The code of instructions can be read back

An instruction leaves its mnemonic in the code, the registers that it names,
the addresses and distances that its names stand for, and its numbers modulo
the room that there is for them.  `Layout.readings?` takes this from the
program, `decode` takes it from the bytes.  The first two bytes decide what
comes next: several rows of the opcode table share an opcode, but then they
differ in the mode, the two high bits of the second byte.

    opcode   mode   instruction
    8B 1B    3      mov sbb   reg , reg
    8B 1B    0      mov sbb   reg , address
    89 19    0      mov sbb   address , reg
    C7 81    3      mov sbb   reg , number
    F7       3      mul       reg
    77              ja        distance
    CD              int       number

* `shapeOf?_of_row` — opcode and mode tell the rows of the opcode table apart;
* `Formed.readOne?_append` — one instruction is read back from the front of any
  code;
* `decode_body` — so is a program that consists of instructions;
* `instructions_uniquely_decodable` — different instructions, different code.
-/

namespace SegmentAssembler

/-! ### What an instruction leaves in the code -/

/-- What is left of an operand. -/
inductive OperandCode where
  /-- The field value of a register. -/
  | register (index : UInt8)
  | address (word : Nat)
  | immediate (n : Nat)
  | displacement (n : Nat)
deriving DecidableEq, Repr

/-- What is left of an instruction. -/
structure Reading where
  mnemonic : Mnemonic
  op1 : Option OperandCode
  op2 : Option OperandCode
deriving DecidableEq, Repr

/-- What an operand of an instruction at the address `here` leaves, numbers by
their remainder.  A name leaves something only if it is declared. -/
def Operand.code? (names : SymbolTable) (here : Nat) (modulus : Int) :
    Operand → Option OperandCode
  | .register r => some (.register r.index)
  | .address name => (names.get? name).map fun symbol => .address symbol.address
  | .immediate v => some (.immediate (v % modulus).toNat)
  | .displacement name =>
    (names.get? name).map fun symbol =>
      .displacement (((symbol.address : Int) - here) % 256).toNat

/-- What an instruction leaves: a number has one byte as the first operand and
a word as the second. -/
def Instruction.reading? (names : SymbolTable) (m : Mnemonic) (i : Instruction) :
    Option Reading := do
  let op1 ← i.op1.mapM (Operand.code? names i.address 256)
  let op2 ← i.op2.mapM (Operand.code? names i.address 65536)
  return ⟨m, op1, op2⟩

/-- The instruction that a line contributes, with its mnemonic. -/
def Record.instruction? (r : Record) : Option (Mnemonic × Instruction) :=
  match r.verdict.effect with
  | .collected m i => some (m, i)
  | _ => none

namespace Layout

/-- The instructions in the order of their lines. -/
def instructions (l : Layout) : List (Mnemonic × Instruction) :=
  l.records.filterMap Record.instruction?

/-- What the instructions leave in the code, one after the other. -/
def readings? (l : Layout) : Option (List Reading) :=
  l.instructions.mapM fun entry => entry.2.reading? l.names entry.1

/-- All items are instructions, and all of them are encoded. -/
def EncodedInstructions (l : Layout) : Prop :=
  ∀ entry ∈ l.items, ∃ i e, entry.2 = .instruction i ∧ i.encode l.names = .ok e

end Layout

/-! ### Reading code -/

/-- The three fields of a byte. -/
def Fields.ofByte (b : UInt8) : Fields := ⟨b / 64, b / 8 % 8, b % 8⟩

/-- The instruction that begins with an opcode and a mode: its mnemonic and the
kinds of its operands. -/
def shapeOf? (opcode mode : Nat) : Option (Mnemonic × Operand.Kind × Option Operand.Kind) :=
  match opcode, mode with
  | 0x8B, 3 => some (.mov, .register, some .register)
  | 0x8B, 0 => some (.mov, .register, some .address)
  | 0x89, 0 => some (.mov, .address, some .register)
  | 0xC7, 3 => some (.mov, .register, some .immediate)
  | 0x1B, 3 => some (.sbb, .register, some .register)
  | 0x1B, 0 => some (.sbb, .register, some .address)
  | 0x19, 0 => some (.sbb, .address, some .register)
  | 0x81, 3 => some (.sbb, .register, some .immediate)
  | 0xF7, 3 => some (.mul, .register, none)
  | 0x77, _ => some (.ja, .displacement, none)
  | 0xCD, _ => some (.int, .immediate, none)
  | _, _ => none

/-- Read the operands of given kinds from the second byte and the code behind it. -/
def readOperands? (m : Mnemonic) (second : UInt8) :
    Operand.Kind → Option Operand.Kind → List UInt8 → Option (Reading × List UInt8)
  | .register, some .register, rest =>
    some (⟨m, some (.register (Fields.ofByte second).reg),
      some (.register (Fields.ofByte second).rm)⟩, rest)
  | .register, some .immediate, low :: high :: rest =>
    some (⟨m, some (.register (Fields.ofByte second).rm),
      some (.immediate (low.toNat + 256 * high.toNat))⟩, rest)
  | .register, some .address, low :: high :: rest =>
    some (⟨m, some (.register (Fields.ofByte second).reg),
      some (.address (low.toNat + 256 * high.toNat))⟩, rest)
  | .address, some .register, low :: high :: rest =>
    some (⟨m, some (.address (low.toNat + 256 * high.toNat)),
      some (.register (Fields.ofByte second).reg)⟩, rest)
  | .register, none, rest => some (⟨m, some (.register (Fields.ofByte second).rm), none⟩, rest)
  | .displacement, none, rest => some (⟨m, some (.displacement second.toNat), none⟩, rest)
  | .immediate, none, rest => some (⟨m, some (.immediate second.toNat), none⟩, rest)
  | _, _, _ => none

/-- Read one instruction from the front of some code. -/
def readOne? : List UInt8 → Option (Reading × List UInt8)
  | opcode :: second :: rest =>
    match shapeOf? opcode.toNat (Fields.ofByte second).mode.toNat with
    | some (m, k1, k2) => readOperands? m second k1 k2 rest
    | none => none
  | _ => none

/-- Reading takes at least the opcode away. -/
theorem length_lt_of_readOne? {bytes rest : List UInt8} {reading : Reading}
    (h : readOne? bytes = some (reading, rest)) : rest.length < bytes.length := by
  unfold readOne? at h
  split at h
  · split at h
    · unfold readOperands? at h
      split at h <;> cases h <;> simp only [List.length_cons] <;> omega
    · exact nomatch h
  · exact nomatch h

/-- Read instructions up to the end of the code. -/
def decode : List UInt8 → Option (List Reading)
  | [] => some []
  | byte :: bytes =>
    match h : readOne? (byte :: bytes) with
    | none => none
    | some (reading, rest) =>
      have : rest.length < (byte :: bytes).length := length_lt_of_readOne? h
      (decode rest).map (reading :: ·)
termination_by bytes => bytes.length
decreasing_by exact this

theorem decode_nil : decode [] = some [] := by rw [decode]

/-- Code is read instruction by instruction, from its beginning. -/
theorem decode_of_readOne? {bytes rest : List UInt8} {reading : Reading}
    (h : readOne? bytes = some (reading, rest)) :
    decode bytes = (decode rest).map (reading :: ·) := by
  cases bytes with
  | nil => exact nomatch h
  | cons byte bytes =>
      rw [decode]
      split
      · rename_i hnone
        rw [h] at hnone
        exact nomatch hnone
      · rename_i reading' rest' hsome
        rw [h, Option.some.injEq, Prod.mk.injEq] at hsome
        obtain ⟨rfl, rfl⟩ := hsome
        rfl

/-! ### The fields of the second byte -/

/-- A register takes three bits. -/
theorem Register.index_lt (r : Register) : r.index < 8 := by cases r <;> decide

/-- Fields that fit into a byte are read back from it. -/
theorem Fields.ofByte_byte {mode reg rm : UInt8} (hmode : mode < 4) (hreg : reg < 8)
    (hrm : rm < 8) : Fields.ofByte (Fields.byte ⟨mode, reg, rm⟩) = ⟨mode, reg, rm⟩ := by
  simp only [ofByte, byte, Fields.mk.injEq, ← UInt8.toNat_inj, UInt8.lt_iff_toNat_lt] at *
  simp only [UInt8.reduceToNat, UInt8.toNat_div, UInt8.toNat_add, UInt8.toNat_mul,
    UInt8.toNat_mod, Nat.reducePow, Nat.add_mod_mod, Nat.mod_add_mod, Nat.reduceDvd,
    Nat.mod_mod_of_dvd] at *
  omega

/-- **Opcode and mode tell the rows apart.**  A row without a mode is known by
its opcode alone. -/
theorem shapeOf?_of_row {m : Mnemonic} {k1 : Operand.Kind} {k2 : Option Operand.Kind}
    {t : Template} (h : Template.lookup? m (some k1) k2 = some t) {mode : Nat}
    (hmode : ∀ x, t.mode = some x → mode = x.toNat) :
    shapeOf? (UInt8.ofNat t.opcode).toNat mode = some (m, k1, k2) := by
  unfold Template.lookup? at h
  split at h
  case h_12 => exact nomatch h
  case h_10 hk1 | h_11 hk1 =>
    cases hk1
    cases h
    rfl
  all_goals
    rename_i hk1
    cases hk1
    cases h
    rw [hmode _ rfl]
    rfl

namespace Parts.Composed

variable {names : SymbolTable} {here : Nat} {op1 : Operand} {op2 : Option Operand} {q : Parts}

/-- The fields of composed parts are read back from their byte. -/
theorem ofByte_byte (h : q.Composed names here op1 op2) {f : Fields}
    (hf : q.second = .fields f) : Fields.ofByte q.second.byte = f := by
  cases h with
  | registers a b => cases hf; exact Fields.ofByte_byte (by decide) a.index_lt b.index_lt
  | constant a hv => cases hf; exact Fields.ofByte_byte (by decide) (by decide) a.index_lt
  | load a hname => cases hf; exact Fields.ofByte_byte (by decide) a.index_lt (by decide)
  | store b hname => cases hf; exact Fields.ofByte_byte (by decide) b.index_lt (by decide)
  | single a => cases hf; exact Fields.ofByte_byte (by decide) (by decide) a.index_lt
  | jump hname hkind hrange => exact nomatch hf
  | interrupt hv => exact nomatch hf

/-- The mode of composed parts is the mode of the row, if it has one. -/
theorem mode_eq (h : q.Composed names here op1 op2) {m : Mnemonic} {t : Template}
    (hrow : Template.lookup? m (some op1.kind) (op2.map Operand.kind) = some t) {x : UInt8}
    (hx : t.mode = some x) : (Fields.ofByte q.second.byte).mode.toNat = x.toNat := by
  have hfields := fun f => h.ofByte_byte (f := f)
  -- the rows of jumps and interrupts have no mode: their second byte is no fields
  cases h
  case jump | interrupt =>
    cases m <;> cases hrow
    cases hx
  all_goals
    rw [hfields _ rfl]
    cases m <;> cases hrow <;> cases hx <;> rfl

/-- **Operands are read back** from the second byte and the tail, and no byte
more is taken. -/
theorem readOperands?_eq (h : q.Composed names here op1 op2)
    (hnames : ∀ name symbol, names.get? name = some symbol → symbol.address ≤ topAddress)
    (m : Mnemonic) :
    ∃ c1 c2, op1.code? names here 256 = some c1 ∧
      op2.mapM (Operand.code? names here 65536) = some c2 ∧
      ∀ rest, readOperands? m q.second.byte op1.kind (op2.map Operand.kind)
        ((q.tail.map wordBytes).getD [] ++ rest) = some (⟨m, some c1, c2⟩, rest) := by
  have hfields := fun f => h.ofByte_byte (f := f)
  cases h with
  | registers a b =>
      refine ⟨.register a.index, some (.register b.index), rfl, rfl, fun rest => ?_⟩
      simp [readOperands?, Operand.kind, hfields _ rfl]
  | single a =>
      refine ⟨.register a.index, none, rfl, rfl, fun rest => ?_⟩
      simp [readOperands?, Operand.kind, hfields _ rfl]
  | @constant a v hv =>
      have hword := toNat_wordBytes (Nat.le_of_lt_succ (DataType.word.store_lt v))
      refine ⟨.register a.index, some (.immediate (v % 65536).toNat), rfl, rfl, fun rest => ?_⟩
      simp only [readOperands?, Operand.kind, hfields _ rfl, Option.map_some, Option.getD_some,
        wordBytes, List.cons_append, hword]
      rfl
  | @load a name symbol hname =>
      have hword := toNat_wordBytes (hnames name symbol hname)
      refine ⟨.register a.index, some (.address symbol.address), rfl, ?_, fun rest => ?_⟩
      · simp [Operand.code?, hname]
      · simp only [readOperands?, Operand.kind, hfields _ rfl, Option.map_some, Option.getD_some,
          wordBytes, List.cons_append, List.nil_append, hword]
  | @store b name symbol hname =>
      have hword := toNat_wordBytes (hnames name symbol hname)
      refine ⟨.address symbol.address, some (.register b.index), ?_, rfl, fun rest => ?_⟩
      · simp [Operand.code?, hname]
      · simp only [readOperands?, Operand.kind, hfields _ rfl, Option.map_some, Option.getD_some,
          wordBytes, List.cons_append, List.nil_append, hword]
  | @jump name symbol hname hkind hrange =>
      have hbyte := toNat_byte_store (symbol.address - here)
      refine ⟨.displacement (((symbol.address : Int) - here) % 256).toNat, none, ?_, rfl,
        fun rest => ?_⟩
      · simp [Operand.code?, hname]
      · simp only [readOperands?, Operand.kind, OperandByte.byte]
        rw [← hbyte]
        rfl
  | @interrupt v hv =>
      have hbyte := toNat_byte_store v
      refine ⟨.immediate (v % 256).toNat, none, rfl, rfl, fun rest => ?_⟩
      simp only [readOperands?, Operand.kind, OperandByte.byte]
      rw [← hbyte]
      rfl

end Parts.Composed

namespace Instruction

variable {i : Instruction} {m : Mnemonic} {names : SymbolTable}

/-- **One instruction is read back.**  Whatever follows its code, reading gives
what the instruction leaves and stops behind it. -/
theorem Formed.readOne?_append (h : i.Formed m) {e : Encoded} (hcode : i.encode names = .ok e)
    (hnames : ∀ name symbol, names.get? name = some symbol → symbol.address ≤ topAddress) :
    ∃ reading, i.reading? names m = some reading ∧
      ∀ rest, readOne? (e.bytes ++ rest) = some (reading, rest) := by
  obtain ⟨op1, p, q, hop1, -, -, hcomposed, -, hbytes⟩ := h.exists_composed hcode
  obtain ⟨c1, c2, hc1, hc2, hoperands⟩ := hcomposed.readOperands?_eq hnames m
  have hrow := h.row
  rw [hop1] at hrow
  have hshape := shapeOf?_of_row hrow fun x hx => hcomposed.mode_eq hrow hx
  refine ⟨⟨m, some c1, c2⟩, ?_, fun rest => ?_⟩
  · simp [reading?, hop1, hc1, hc2]
  · rw [hbytes, join, List.cons_append, List.cons_append, readOne?, hshape]
    exact hoperands rest

end Instruction

/-! ### Reading a program -/

/-- A line without an item has no instruction. -/
theorem Record.instruction?_eq_none {r : Record} (h : r.item? = none) : r.instruction? = none := by
  unfold item? at h
  unfold instruction?
  cases heffect : r.verdict.effect with
  | collected m i => simp [heffect, Effect.item?] at h
  | _ => rfl

namespace Layout

variable {source : Text}

/-- The record behind an instruction: reading its code gives what it leaves. -/
theorem exists_reading_of_item? {r : Record} (hr : r ∈ (ofSource source).records) {n : Nat}
    {i : Instruction} (hitem : r.item? = some (n, .instruction i)) {e : Encoded}
    (hcode : i.encode (ofSource source).names = .ok e) :
    ∃ m reading, r.instruction? = some (m, i) ∧
      i.reading? (ofSource source).names m = some reading ∧
      ∀ rest, readOne? (e.bytes ++ rest) = some (reading, rest) := by
  obtain ⟨m, heffect⟩ := Effect.eq_collected_of_item? (item?_eq_some_iff.mp hitem).2
  have hadmits := admits_of_mem_records hr
  rw [heffect] at hadmits
  obtain ⟨reading, hreading, hread⟩ :=
    hadmits.formed.1.readOne?_append hcode fun name symbol => address_le_top_of_get?
  refine ⟨m, reading, ?_, hreading, hread⟩
  rw [Record.instruction?, heffect]

/-- Records without data contribute nothing but their instructions, and the code
of these is read back: what a record adds in front is read first. -/
private theorem decode_records {records : List Record}
    (hsub : ∀ r ∈ records, r ∈ (ofSource source).records)
    (hall : ∀ entry ∈ records.filterMap Record.item?,
      ∃ i e, entry.2 = .instruction i ∧ i.encode (ofSource source).names = .ok e) :
    (records.filterMap Record.item?).map Prod.snd =
      (records.filterMap Record.instruction?).map (fun entry => .instruction entry.2) ∧
    ∃ readings,
      (records.filterMap Record.instruction?).mapM
        (fun entry => entry.2.reading? (ofSource source).names entry.1) = some readings ∧
      decode (Image.ofItems (ofSource source).names (records.filterMap Record.item?)).body =
        some readings := by
  induction records with
  | nil => exact ⟨rfl, [], rfl, decode_nil⟩
  | cons r rest ih =>
      have hsub' := fun other hother => hsub other (List.mem_cons_of_mem r hother)
      cases hitem : r.item? with
      | none =>
          rw [List.filterMap_cons_none hitem] at hall ⊢
          rw [List.filterMap_cons_none (Record.instruction?_eq_none hitem)]
          exact ih hsub' hall
      | some entry =>
          obtain ⟨n, item⟩ := entry
          rw [List.filterMap_cons_some hitem] at hall ⊢
          obtain ⟨hitems, readings, hreadings, hdecode⟩ :=
            ih hsub' fun other hother => hall other (List.mem_cons_of_mem _ hother)
          obtain ⟨i, e, rfl, hcode⟩ := hall (n, item) List.mem_cons_self
          obtain ⟨m, reading, hinstruction, hreading, hread⟩ :=
            exists_reading_of_item? (hsub r List.mem_cons_self) hitem hcode
          have hencode : (n, Item.instruction i).2.encode (ofSource source).names = .ok e := hcode
          rw [List.filterMap_cons_some hinstruction]
          refine ⟨by rw [List.map_cons, List.map_cons, hitems], reading :: readings, ?_, ?_⟩
          · simp [hreading, hreadings]
          · rw [Image.body_ofItems_cons hencode, decode_of_readOne? (hread _), hdecode]
            rfl

/-- **A program of instructions is read back from its code.** -/
theorem decode_body (h : (ofSource source).EncodedInstructions) :
    (ofSource source).items.map Prod.snd =
      (ofSource source).instructions.map (fun entry => .instruction entry.2) ∧
    ∃ readings, (ofSource source).readings? = some readings ∧
      decode (ofSource source).image.body = some readings :=
  decode_records (fun _ hr => hr) h

/-- **The code of instructions is uniquely decodable.**  If all items of a source
are instructions and all of them are encoded, `decode` reads from the code what
they leave there, in the order of their lines: mnemonic and kinds, registers at
their places, addresses, distances and numbers.  So two such sources whose
instructions leave anything different have different code. -/
theorem instructions_uniquely_decodable :
    (∀ source, (ofSource source).EncodedInstructions →
      (ofSource source).items.map Prod.snd =
        (ofSource source).instructions.map (fun entry => .instruction entry.2) ∧
      ∃ readings, (ofSource source).readings? = some readings ∧
        decode (ofSource source).image.body = some readings) ∧
    ∀ source source', (ofSource source).EncodedInstructions →
      (ofSource source').EncodedInstructions →
      (ofSource source).readings? ≠ (ofSource source').readings? →
      (ofSource source).image.body ≠ (ofSource source').image.body := by
  refine ⟨fun source h => decode_body h, ?_⟩
  intro source source' h h' hne heq
  obtain ⟨-, readings, hreadings, hdecode⟩ := decode_body h
  obtain ⟨-, readings', hreadings', hdecode'⟩ := decode_body h'
  apply hne
  rw [hreadings, hreadings', ← hdecode, ← hdecode', heq]

/-- Two programs that differ in the order of two registers. -/
theorem instructions_uniquely_decodable_swapped :
    let source := "S SEGMENT\nL:\nMOV AX, BX\nJA L\nS ENDS".toList
    let source' := "S SEGMENT\nL:\nMOV BX, AX\nJA L\nS ENDS".toList
    (ofSource source).EncodedInstructions ∧ (ofSource source').EncodedInstructions ∧
    decode (ofSource source).image.body =
      some [⟨.mov, some (.register 0), some (.register 3)⟩, ⟨.ja, some (.displacement 254), none⟩] ∧
    (ofSource source).image.body ≠ (ofSource source').image.body := by
  intro source source'
  have h : (ofSource source).EncodedInstructions :=
    List.forall_mem_cons.mpr ⟨⟨_, _, rfl, rfl⟩,
      List.forall_mem_cons.mpr ⟨⟨_, _, rfl, rfl⟩, List.forall_mem_nil _⟩⟩
  have h' : (ofSource source').EncodedInstructions :=
    List.forall_mem_cons.mpr ⟨⟨_, _, rfl, rfl⟩,
      List.forall_mem_cons.mpr ⟨⟨_, _, rfl, rfl⟩, List.forall_mem_nil _⟩⟩
  refine ⟨h, h', ?_, instructions_uniquely_decodable.2 source source' h h' (by decide)⟩
  obtain ⟨-, readings, hreadings, hdecode⟩ := instructions_uniquely_decodable.1 source h
  rw [hdecode, ← hreadings]
  rfl

end Layout

end SegmentAssembler
