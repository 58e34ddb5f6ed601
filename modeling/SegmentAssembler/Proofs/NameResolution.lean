import SegmentAssembler.Image
import SegmentAssembler.Proofs.Declarations
import SegmentAssembler.Proofs.SizeAgreement

/-!
# References point at their declarations

An instruction refers to other lines in two ways: by the address of a name,
which is the word behind its second byte, or by the distance to a label, which
is its second byte.  Names are resolved when the scan is over, so it makes no
difference whether the declaring line stands before the reference or after it.

* `Parts.Composed.word_of_address`, `Parts.Composed.byte_of_target` — what an
  encoded instruction keeps of a reference;
* `declared_once_of_get?` — behind every name that is found stands one
  declaring line, and the symbol has its address;
* `references_resolve` — both together, for every instruction that is encoded.
-/

namespace SegmentAssembler

namespace Layout

/-- An accepted label line for the name with these capital letters. -/
def LabelledOn (l : Layout) (line : Nat) (key : Text) : Prop :=
  ∃ r ∈ l.records, r.line.number = line ∧
    ∃ id, r.verdict.effect = .labelled id ∧ Text.upper id = key

/-- The line declares the name with these capital letters, as a label or as data. -/
def DeclaredOn (l : Layout) (line : Nat) (key : Text) : Prop :=
  l.LabelledOn line key ∨ ∃ d, (line, .data d) ∈ l.items ∧ d.id = key

end Layout

/-! ### What an encoded instruction keeps of a reference -/

/-- The two bytes of a word give it back, the low one first. -/
theorem toNat_wordBytes {n : Nat} (h : n ≤ topAddress) :
    (UInt8.ofNat n).toNat + 256 * (UInt8.ofNat (n / 256)).toNat = n := by
  simp only [topAddress] at h
  simp only [UInt8.toNat_ofNat']
  omega

/-- The stored byte of a number is the number modulo 256. -/
theorem toNat_byte_store (v : Int) :
    ((UInt8.ofNat (DataType.byte.store v)).toNat : Int) = v % 256 := by
  have hlt : DataType.byte.store v < 256 := DataType.store_lt .byte v
  rw [UInt8.toNat_ofNat_of_lt' hlt]
  simp only [DataType.store, DataType.modulus]
  omega

namespace Parts.Composed

variable {names : SymbolTable} {here : Nat} {op1 : Operand} {op2 : Option Operand} {q : Parts}
  {name : Text}

/-- A name for an address becomes the word of the tail. -/
theorem word_of_address (h : q.Composed names here op1 op2)
    (hname : op1 = .address name ∨ op2 = some (.address name)) :
    ∃ symbol, names.get? name = some symbol ∧ q.tail = some symbol.address := by
  cases h with
  | load a hget =>
      obtain rfl : _ = name := by simpa using hname
      exact ⟨_, hget, rfl⟩
  | store b hget =>
      obtain rfl : _ = name := by simpa using hname
      exact ⟨_, hget, rfl⟩
  | _ => simp at hname

/-- The target of a jump becomes the distance in the second byte. -/
theorem byte_of_target (h : q.Composed names here (.displacement name) op2) :
    ∃ symbol, names.get? name = some symbol ∧ symbol.kind = .label ∧
      DataType.byte.contains (symbol.address - here) = true ∧
      q.second.byte = UInt8.ofNat (DataType.byte.store (symbol.address - here)) := by
  cases h with
  | jump hget hkind hrange => exact ⟨_, hget, hkind, hrange, rfl⟩

end Parts.Composed

/-! ### The declaring line -/

namespace Layout

variable {source : Text}

/-- A record that declares a name stands on a declaring line. -/
private theorem declaredOn_of_declaration {r : Record} {key : Text} {symbol : Symbol}
    (hr : r ∈ (ofSource source).records) (h : r.declaration? = some (key, symbol)) :
    (ofSource source).DeclaredOn r.line.number key ∧
      (symbol.kind = .label → (ofSource source).LabelledOn r.line.number key) ∧
      (ofSource source).addressAt? r.line.number = some symbol.address := by
  obtain ⟨declared, hdeclared, heq⟩ := Option.map_eq_some_iff.mp h
  obtain ⟨rfl, rfl⟩ := Prod.mk.inj heq
  cases heffect : r.verdict.effect with
  | labelled id =>
      obtain rfl : (id, Symbol.Kind.label) = declared := by
        simpa [heffect, Effect.declared?] using hdeclared
      have hlabel : (ofSource source).LabelledOn r.line.number (Text.upper id) :=
        ⟨r, hr, rfl, id, heffect, rfl⟩
      refine ⟨Or.inl hlabel, fun _ => hlabel, ?_⟩
      exact addressAt?_of_mem_records hr (by rw [heffect]; rfl)
  | defined id type values =>
      obtain rfl : (id, Symbol.Kind.ofDataType type) = declared := by
        simpa [heffect, Effect.declared?] using hdeclared
      refine ⟨Or.inr ⟨.ofLine id type values, mem_items_iff.mpr ⟨r, hr, rfl, ?_⟩, rfl⟩, ?_, ?_⟩
      · rw [heffect]
        rfl
      · intro hkind
        cases type <;> cases hkind
      · exact addressAt?_of_mem_records hr (by rw [heffect]; rfl)
  | _ => simp [heffect, Effect.declared?] at hdeclared

/-- A declaring line has a record that declares the name. -/
private theorem declaration_of_declaredOn {line : Nat} {key : Text}
    (h : (ofSource source).DeclaredOn line key) :
    ∃ r ∈ (ofSource source).records, r.line.number = line ∧
      ∃ symbol, r.declaration? = some (key, symbol) := by
  rcases h with ⟨r, hr, hline, id, heffect, rfl⟩ | ⟨d, hd, rfl⟩
  · exact ⟨r, hr, hline, _, by rw [Record.declaration?, heffect]; rfl⟩
  · obtain ⟨r, hr, hline, hitem⟩ := mem_items_iff.mp hd
    obtain ⟨id, type, values, heffect, rfl⟩ := Effect.eq_defined_of_item? hitem
    exact ⟨r, hr, hline, _, by rw [Record.declaration?, heffect]; rfl⟩

/-- **One line declares the name.**  A name that is found has exactly one
declaring line, and the symbol stands for the address of that line; if it is a
label, the line is a label line. -/
theorem declared_once_of_get? {name : Text} {symbol : Symbol}
    (h : (ofSource source).names.get? name = some symbol) :
    ∃ line, (ofSource source).DeclaredOn line (Text.upper name) ∧
      (∀ other, (ofSource source).DeclaredOn other (Text.upper name) → other = line) ∧
      (symbol.kind = .label → (ofSource source).LabelledOn line (Text.upper name)) ∧
      (ofSource source).addressAt? line = some symbol.address := by
  obtain ⟨r, hr, hdeclaration⟩ := exists_declaration_of_get? h
  obtain ⟨hdeclared, hlabel, haddress⟩ := declaredOn_of_declaration hr hdeclaration
  refine ⟨r.line.number, hdeclared, ?_, hlabel, haddress⟩
  intro other hother
  obtain ⟨r', hr', hline, symbol', hdeclaration'⟩ := declaration_of_declaredOn hother
  rw [← hline, eq_of_declaration_key hr' hr hdeclaration' hdeclaration]

/-- **Every resolved reference points at its declaration.**  Of any source, let
an instruction be encoded.  If one of its operands is a name for an address,
exactly one line declares that name, and the bytes behind the second one are
the address of that line, the low byte first.  If its operand is the target of
a jump, exactly one line declares it, a label line whose address is at most
256 bytes back or 255 bytes on, and the second byte is the distance modulo 256.
Nothing is said of the order of the two lines. -/
theorem references_resolve (source : Text) (n : Nat) (i : Instruction) (e : Encoded)
    (hi : (n, .instruction i) ∈ (ofSource source).items)
    (hcode : i.encode (ofSource source).names = .ok e) :
    (∀ id, i.op1 = some (.address id) ∨ i.op2 = some (.address id) →
      ∃ d, (ofSource source).DeclaredOn d (Text.upper id) ∧
        (∀ d', (ofSource source).DeclaredOn d' (Text.upper id) → d' = d) ∧
        ∃ a low high, (ofSource source).addressAt? d = some a ∧
          e.bytes[2]? = some low ∧ e.bytes[3]? = some high ∧ low.toNat + 256 * high.toNat = a) ∧
    (∀ id, i.op1 = some (.displacement id) →
      ∃ d, (ofSource source).LabelledOn d (Text.upper id) ∧
        (∀ d', (ofSource source).DeclaredOn d' (Text.upper id) → d' = d) ∧
        ∃ (a here : Nat) (b : UInt8), (ofSource source).addressAt? d = some a ∧
          (ofSource source).addressAt? n = some here ∧
          -256 ≤ (a : Int) - here ∧ (a : Int) - here ≤ 255 ∧
          e.bytes[1]? = some b ∧ (b.toNat : Int) % 256 = ((a : Int) - here) % 256) := by
  obtain ⟨r, hr, m, hline, heffect, hformed, hhere⟩ := formed_of_mem_items hi
  obtain ⟨op1, p, q, hop1, -, -, hcomposed, -, hbytes⟩ := hformed.exists_composed hcode
  constructor
  · intro id hid
    have hname : op1 = .address id ∨ i.op2 = some (.address id) := by
      simpa [hop1] using hid
    obtain ⟨symbol, hget, htail⟩ := hcomposed.word_of_address hname
    obtain ⟨d, hdeclared, honce, -, haddress⟩ := declared_once_of_get? hget
    refine ⟨d, hdeclared, honce, symbol.address, _, _, haddress, ?_, ?_,
      toNat_wordBytes (address_le_top_of_get? hget)⟩
    · rw [hbytes, Instruction.join, htail]
      rfl
    · rw [hbytes, Instruction.join, htail]
      rfl
  · intro id hid
    obtain rfl : op1 = .displacement id := by simpa [hop1] using hid
    obtain ⟨symbol, hget, hkind, hrange, hbyte⟩ := hcomposed.byte_of_target
    obtain ⟨d, -, honce, hlabel, haddress⟩ := declared_once_of_get? hget
    rw [DataType.contains_iff] at hrange
    simp only [DataType.modulus] at hrange
    refine ⟨d, hlabel hkind, honce, symbol.address, i.address, q.second.byte, haddress, ?_,
      by omega, by omega, ?_, ?_⟩
    · rw [hhere, ← hline]
      exact addressAt?_of_item hr (by rw [heffect]; rfl)
    · rw [hbytes]
      rfl
    · rw [hbyte, toNat_byte_store, Int.emod_emod]

/-- A load and a jump that stand before the lines they refer to. -/
theorem references_resolve_forward :
    let l := ofSource "S SEGMENT\nMOV AX, X\nJA L\nX DW 1,2\nL:\nS ENDS".toList
    let load : Instruction := ⟨⟨0x22, some 1, true, some 0, none, some 6⟩,
      some (.register .ax), some (.address ['X']), 0, 4⟩
    let jump : Instruction := ⟨⟨0x77, none, false, none, none, some 0⟩,
      some (.displacement ['L']), none, 4, 2⟩
    (2, .instruction load) ∈ l.items ∧ (3, .instruction jump) ∈ l.items ∧
    ∃ e e', load.encode l.names = .ok e ∧ jump.encode l.names = .ok e' ∧
      (∃ d, l.DeclaredOn d ['X'] ∧ ∃ a low high, l.addressAt? d = some a ∧
        e.bytes[2]? = some low ∧ e.bytes[3]? = some high ∧ low.toNat + 256 * high.toNat = a) ∧
      ∃ d, l.LabelledOn d ['L'] ∧ ∃ (a here : Nat) (b : UInt8), l.addressAt? d = some a ∧
        l.addressAt? 3 = some here ∧ e'.bytes[1]? = some b ∧
        (b.toNat : Int) % 256 = ((a : Int) - here) % 256 := by
  intro l load jump
  have hload : (2, .instruction load) ∈ l.items := List.mem_of_getElem? (i := 0) rfl
  have hjump : (3, .instruction jump) ∈ l.items := List.mem_of_getElem? (i := 1) rfl
  have hall := exists_encode_of_no_errors (l := l) (by decide)
  obtain ⟨e, hcode⟩ := hall _ hload
  obtain ⟨e', hcode'⟩ := hall _ hjump
  refine ⟨hload, hjump, e, e', hcode, hcode', ?_, ?_⟩
  · obtain ⟨d, hdeclared, -, hword⟩ :=
      (references_resolve _ 2 load e hload hcode).1 ['X'] (Or.inr rfl)
    exact ⟨d, hdeclared, hword⟩
  · obtain ⟨d, hlabel, -, a, here, b, ha, hhere, -, -, hb, hbyte⟩ :=
      (references_resolve _ 3 jump e' hjump hcode').2 ['L'] rfl
    exact ⟨d, hlabel, a, here, b, ha, hhere, hb, hbyte⟩

end Layout

end SegmentAssembler
