import SegmentAssembler.Assembly
import SegmentAssembler.Proofs.ImageLines
import SegmentAssembler.Proofs.ShiftedRuns

/-!
# Programs in another spelling

The text of a name is kept in few places: in the operands of an instruction, in
the table of names and in diagnostics.  Everywhere else only its length in
bytes, its address or its kind counts.  Here two runs are compared whose lines
do the same, with words that correspond under some relation `R`:

    MOV AX , count        x:        count DW 1
    mov ax , COUNT        X:        COUNT dw 1

What the relation is does not matter, as long as corresponding names stand for
the same in the two tables.

* `Item.encode_respelled` — an item is encoded to the same bytes, or with the
  same complaint about a corresponding name;
* `Layout.Respelled` — two layouts that do the same line by line; then addresses,
  sizes, code, text and object record are the same, and the reports say the same
  of corresponding words (`Layout.Respelled.errors`, `Layout.Respelled.warnings`);
* `rel_byLine` — so do the reports sorted by lines.
-/

namespace SegmentAssembler

/-! ### Diagnostics -/

namespace Diagnostic

/-- The text that a diagnostic quotes. -/
def text? : Diagnostic → Option Text
  | invalidSegmentId t | segmentNameMismatch t | unexpectedDirective t | unexpectedWord t
  | invalidLabelId t | duplicateId t | undeclared t | undeclaredTarget t
  | badExpression t => some t
  | _ => none

/-- The diagnostic with nothing in the place of the text that it quotes. -/
def withoutText : Diagnostic → Diagnostic
  | invalidSegmentId _ => invalidSegmentId []
  | segmentNameMismatch _ => segmentNameMismatch []
  | unexpectedDirective _ => unexpectedDirective []
  | unexpectedWord _ => unexpectedWord []
  | invalidLabelId _ => invalidLabelId []
  | duplicateId _ => duplicateId []
  | undeclared _ => undeclared []
  | undeclaredTarget _ => undeclaredTarget []
  | badExpression _ => badExpression []
  | d => d

/-- The same cause with the same particulars, quoting corresponding texts. -/
structure Respelled (R : Text → Text → Prop) (d d' : Diagnostic) : Prop where
  cause : d'.withoutText = d.withoutText
  text : Option.Rel R d.text? d'.text?

end Diagnostic

/-- Diagnostics of the same weight that correspond. -/
structure Finding.Respelled (R : Text → Text → Prop) (f f' : Finding) : Prop where
  severity : f'.severity = f.severity
  diagnostic : f.diagnostic.Respelled R f'.diagnostic

/-- The same result, or complaints that correspond. -/
inductive SameOutcome (R : Text → Text → Prop) {α : Type} :
    Except Diagnostic α → Except Diagnostic α → Prop
  | ok (a : α) : SameOutcome R (.ok a) (.ok a)
  | error {d d' : Diagnostic} (h : d.Respelled R d') : SameOutcome R (.error d) (.error d')

/-! ### Items and effects -/

/-- The same operand, with a corresponding name. -/
inductive Operand.Respelled (R : Text → Text → Prop) : Operand → Operand → Prop
  | register (r : Register) : Respelled R (.register r) (.register r)
  | address {x y : Text} (h : R x y) : Respelled R (.address x) (.address y)
  | immediate (v : Int) : Respelled R (.immediate v) (.immediate v)
  | displacement {x y : Text} (h : R x y) : Respelled R (.displacement x) (.displacement y)

/-- The same instruction, with corresponding names. -/
structure Instruction.Respelled (R : Text → Text → Prop) (i j : Instruction) : Prop where
  template : j.template = i.template
  op1 : Option.Rel (Operand.Respelled R) i.op1 j.op1
  op2 : Option.Rel (Operand.Respelled R) i.op2 j.op2
  address : j.address = i.address
  length : j.length = i.length

/-- The same item; of data only the name may differ. -/
inductive Item.Respelled (R : Text → Text → Prop) : Item → Item → Prop
  | instruction {i j : Instruction} (h : i.Respelled R j) :
      Respelled R (.instruction i) (.instruction j)
  | data (id id' : Text) (type : DataType) (values : List (Option Int)) :
      Respelled R (.data ⟨id, type, values⟩) (.data ⟨id', type, values⟩)

/-- The same effect, with corresponding names. -/
inductive Effect.Respelled (R : Text → Text → Prop) : Effect → Effect → Prop
  | rejected : Respelled R .rejected .rejected
  | opened (name : Text) : Respelled R (.opened name) (.opened name)
  | closed : Respelled R .closed .closed
  | moved (a : Nat) : Respelled R (.moved a) (.moved a)
  | labelled {x y : Text} (h : R x y) : Respelled R (.labelled x) (.labelled y)
  | defined {x y : Text} (h : R x y) (type : DataType) (values : List (Option Int)) :
      Respelled R (.defined x type values) (.defined y type values)
  | collected (m : Mnemonic) {i j : Instruction} (h : i.Respelled R j) :
      Respelled R (.collected m i) (.collected m j)

section Items

variable {R : Text → Text → Prop}

/-- An operand keeps its kind, however it is spelled. -/
theorem Operand.Respelled.kind_eq {op op' : Operand} (h : op.Respelled R op') :
    op'.kind = op.kind := by
  cases h <;> rfl

/-- Kinds of operands do not depend on the spelling. -/
theorem map_kind_eq_of_rel {op op' : Option Operand}
    (h : Option.Rel (Operand.Respelled R) op op') : op'.map Operand.kind = op.map Operand.kind := by
  cases h with
  | none => rfl
  | some h => exact congrArg some h.kind_eq

/-- An item keeps its size. -/
theorem Item.Respelled.size_eq {x y : Item} (h : x.Respelled R y) : y.size = x.size := by
  cases h with
  | instruction h => exact h.length
  | data => rfl

namespace Effect.Respelled

variable {e e' : Effect}

/-- Respelled effects have respelled items. -/
theorem item? (h : e.Respelled R e') : Option.Rel (Item.Respelled R) e.item? e'.item? := by
  cases h with
  | defined h type values => exact .some (.data _ _ type values)
  | collected m h => exact .some (.instruction h)
  | _ => exact .none

theorem hasAddress_eq (h : e.Respelled R e') : e'.hasAddress = e.hasAddress := by
  cases h <;> rfl

theorem isSome_item?_eq (h : e.Respelled R e') : e'.item?.isSome = e.item?.isSome := by
  cases h <;> rfl

theorem isCollected_eq (h : e.Respelled R e') : e'.isCollected = e.isCollected := by
  cases h <;> rfl

/-- The counter goes the same way. -/
theorem counterAfter_eq (h : e.Respelled R e') {s t : State} (hcounter : t.counter = s.counter) :
    t.counterAfter e' = s.counterAfter e := by
  cases h with
  | moved a => rfl
  | @collected m i j hij =>
      have hlength := hij.length
      simp only [State.counterAfter, Effect.advance, Effect.item?, Option.map_some,
        Option.getD_some, Item.size]
      omega
  | _ => exact congrArg (· + _) hcounter

end Effect.Respelled

end Items

/-! ### Encoding -/

/-- Corresponding names stand for the same in the two tables. -/
def SymbolTable.Respelled (R : Text → Text → Prop) (t t' : SymbolTable) : Prop :=
  ∀ x y, R x y → t'.get? y = t.get? x

section Encoding

variable {R : Text → Text → Prop} {t t' : SymbolTable}

/-- The same outcome is the same after a further step that cannot fail. -/
theorem SameOutcome.map {α β : Type} {x y : Except Diagnostic α} (h : SameOutcome R x y)
    (f : α → β) : SameOutcome R (x.map f) (y.map f) := by
  cases h with
  | ok a => exact .ok (f a)
  | error h => exact .error h

/-- Respelled names have the same address, or are missing in either table. -/
theorem SymbolTable.Respelled.resolve (h : t.Respelled R t') {x y : Text} (hxy : R x y) :
    SameOutcome R (t.resolve x) (t'.resolve y) := by
  unfold SymbolTable.resolve
  rw [h x y hxy]
  cases t.get? x with
  | none => exact .error ⟨rfl, .some hxy⟩
  | some symbol => exact .ok symbol.address

namespace Instruction.Respelled

variable {i j : Instruction}

/-- The distance to a respelled label is the same. -/
theorem distance (h : i.Respelled R j) (htable : t.Respelled R t') {x y : Text} (hxy : R x y) :
    SameOutcome R (i.distance t x) (j.distance t' y) := by
  unfold Instruction.distance
  rw [htable x y hxy, h.address]
  cases t.get? x with
  | none => exact .error ⟨rfl, .some hxy⟩
  | some symbol =>
      dsimp only
      split
      · exact .error ⟨rfl, .none⟩
      · split
        · exact .ok _
        · exact .error ⟨rfl, .none⟩

/-- The first operand is placed in the same way. -/
theorem placeFirst (h : i.Respelled R j) (htable : t.Respelled R t') {op op' : Operand}
    (hop : op.Respelled R op') : SameOutcome R (i.placeFirst t op) (j.placeFirst t' op') := by
  cases hop with
  | register r =>
      simp only [Instruction.placeFirst, h.template]
      split <;> exact .ok _
  | @address x y hxy =>
      have hresolve := htable.resolve hxy
      simp only [Instruction.placeFirst, h.template]
      generalize t.resolve x = outcome at hresolve
      generalize t'.resolve y = outcome' at hresolve
      cases hresolve with
      | ok address => exact .ok _
      | error hd => exact .error hd
  | @displacement x y hxy =>
      have hdistance := h.distance htable hxy
      simp only [Instruction.placeFirst]
      generalize i.distance t x = outcome at hdistance
      generalize j.distance t' y = outcome' at hdistance
      cases hdistance with
      | ok b => exact .ok _
      | error hd => exact .error hd
  | immediate v =>
      have hsome : j.op2.isSome = i.op2.isSome := by
        have hop2 := h.op2
        generalize i.op2 = op at hop2
        generalize j.op2 = op' at hop2
        cases hop2 <;> rfl
      simp only [Instruction.placeFirst, hsome]
      split
      · exact .error ⟨rfl, .none⟩
      · split
        · exact .ok _
        · exact .error ⟨rfl, .none⟩

/-- So is the second one. -/
theorem placeSecond (h : i.Respelled R j) (htable : t.Respelled R t') (p : Parts) :
    SameOutcome R (i.placeSecond t p) (j.placeSecond t' p) := by
  have hop2 := h.op2
  unfold Instruction.placeSecond
  rw [h.template]
  generalize i.op2 = op at hop2
  generalize j.op2 = op' at hop2
  cases hop2 with
  | none => cases p.second <;> exact .ok _
  | some hop =>
      cases hop with
      | register r =>
          cases p.second with
          | fields f =>
              dsimp only
              split <;> exact .ok _
          | literal b => exact .error ⟨rfl, .none⟩
      | immediate v =>
          dsimp only
          split
          · exact .ok _
          · exact .error ⟨rfl, .none⟩
      | @address x y hxy =>
          cases p.second with
          | fields f =>
              have hresolve := htable.resolve hxy
              dsimp only
              generalize t.resolve x = outcome at hresolve
              generalize t'.resolve y = outcome' at hresolve
              cases hresolve with
              | ok address => exact .ok _
              | error hd => exact .error hd
          | literal b => exact .error ⟨rfl, .none⟩
      | displacement hxy => exact .error ⟨rfl, .none⟩

/-- The bytes of a respelled instruction are the same before they are resized. -/
theorem plainBytes (h : i.Respelled R j) (htable : t.Respelled R t') :
    SameOutcome R (i.plainBytes t) (j.plainBytes t') := by
  have hop1 := h.op1
  unfold Instruction.plainBytes
  rw [h.template]
  generalize i.op1 = op at hop1
  generalize j.op1 = op' at hop1
  cases hop1 with
  | none => exact .ok _
  | @some op op' hop =>
      have hfirst := h.placeFirst htable hop
      dsimp only
      generalize i.placeFirst t op = outcome at hfirst
      generalize j.placeFirst t' op' = outcome' at hfirst
      cases hfirst with
      | error hd => exact .error hd
      | ok p =>
          have hsecond := h.placeSecond htable p
          dsimp only
          generalize i.placeSecond t p = outcome at hsecond
          generalize j.placeSecond t' p = outcome' at hsecond
          cases hsecond with
          | error hd => exact .error hd
          | ok q => exact .ok _

/-- **A respelled instruction has the same code**, or fails for the same reason. -/
theorem encode (h : i.Respelled R j) (htable : t.Respelled R t') :
    SameOutcome R (i.encode t) (j.encode t') := by
  have hbytes : SameOutcome R (i.bytes t) (j.bytes t') := by
    have hop1 := h.op1
    have hplain := (h.plainBytes htable).map (resize i.length)
    unfold Instruction.bytes
    rw [h.template, h.length]
    generalize i.op1 = op at hop1
    generalize j.op1 = op' at hop1
    cases hop1 with
    | none => exact .ok _
    | some hop => exact hplain
  exact hbytes.map _

end Instruction.Respelled

/-- **An item is encoded in the same way**, or refused for a corresponding name. -/
theorem Item.encode_respelled {x y : Item} (h : x.Respelled R y) (htable : t.Respelled R t') :
    SameOutcome R (x.encode t) (y.encode t') := by
  cases h with
  | instruction h => exact h.encode htable
  | data id id' type values => exact .ok _

namespace Image

variable {items items' : List (Nat × Item)}

/-- Items that correspond have the same code and the same text. -/
theorem encoded_respelled (h : List.Forall₂ (UnderSameKey (Item.Respelled R)) items items')
    (htable : t.Respelled R t') : (ofItems t' items').encoded = (ofItems t items).encoded := by
  induction h with
  | nil => rfl
  | @cons entry entry' items items' hentry _ ih =>
      have houtcome := Item.encode_respelled hentry.2 htable
      simp only [encoded, ofItems, List.map_cons, List.filterMap_cons] at ih ⊢
      rw [ih, hentry.1]
      generalize entry.2.encode t = outcome at houtcome
      generalize entry'.2.encode t' = outcome' at houtcome
      cases houtcome with
      | ok e => rfl
      | error hd => rfl

/-- The complaints about them correspond. -/
theorem findings_respelled (h : List.Forall₂ (UnderSameKey (Item.Respelled R)) items items')
    (htable : t.Respelled R t') :
    List.Forall₂ (UnderSameKey (Finding.Respelled R)) (ofItems t items).findings
      (ofItems t' items').findings := by
  simp only [findings, ofItems, List.filterMap_map]
  refine List.rel_filterMap (fun entry entry' hentry => ?_) h
  have houtcome := Item.encode_respelled hentry.2 htable
  simp only [Function.comp_apply]
  generalize entry.2.encode t = outcome at houtcome
  generalize entry'.2.encode t' = outcome' at houtcome
  cases houtcome with
  | ok e => exact .none
  | error hd => exact .some ⟨hentry.1, rfl, hd⟩

end Image

end Encoding

/-! ### Records -/

/-- What happened on one line in two runs: the same, with corresponding words. -/
structure Record.Respelled (R : Text → Text → Prop) (r r' : Record) : Prop where
  number : r'.line.number = r.line.number
  counter : r'.before.counter = r.before.counter
  findings : List.Forall₂ (Finding.Respelled R) r.verdict.findings r'.verdict.findings
  effect : r.verdict.effect.Respelled R r'.verdict.effect

section Records

variable {R : Text → Text → Prop} {rs rs' : List Record}

/-- Respelled records show the same addresses. -/
theorem addresses_of_respelled (h : List.Forall₂ (Record.Respelled R) rs rs') :
    rs'.filterMap Record.address? = rs.filterMap Record.address? := by
  induction h with
  | nil => rfl
  | @cons r r' rs rs' hr _ ih =>
      have haddress : r'.address? = r.address? := by
        unfold Record.address?
        rw [hr.effect.hasAddress_eq, hr.number, hr.counter]
      rw [List.filterMap_cons, List.filterMap_cons, haddress, ih]

/-- Respelled records have respelled findings, under the same lines. -/
theorem findings_of_respelled (h : List.Forall₂ (Record.Respelled R) rs rs') :
    List.Forall₂ (UnderSameKey (Finding.Respelled R)) (rs.flatMap Record.findings)
      (rs'.flatMap Record.findings) := by
  refine List.rel_flatMap h fun r r' hr => ?_
  refine List.rel_map (fun f f' hf => ?_) hr.findings
  exact ⟨hr.number, hf⟩

end Records

/-! ### Reports -/

section Reports

variable {R : Text → Text → Prop}

/-- Findings are sorted by severity, which no spelling changes. -/
theorem Report.rel_select (severity : Severity) {fs fs' : List (Nat × Finding)}
    (h : List.Forall₂ (UnderSameKey (Finding.Respelled R)) fs fs') :
    List.Forall₂ (UnderSameKey (Diagnostic.Respelled R)) (select severity fs)
      (select severity fs') := by
  refine List.rel_filterMap (fun found found' hfound => ?_) h
  rw [hfound.2.severity]
  split
  · exact .some ⟨hfound.1, hfound.2.diagnostic⟩
  · exact .none

/-- Records that correspond are filed in the same place. -/
theorem rel_file {S : Diagnostic → Diagnostic → Prop} {record record' : LineRecord}
    (hrecord : UnderSameKey S record record') {log log' : LineLog}
    (hlog : List.Forall₂ (UnderSameKey (List.Forall₂ S)) log log') :
    List.Forall₂ (UnderSameKey (List.Forall₂ S)) (file record log) (file record' log') := by
  obtain ⟨line, d⟩ := record
  obtain ⟨line', d'⟩ := record'
  obtain ⟨rfl, hd⟩ := hrecord
  induction hlog with
  | nil => exact .cons ⟨rfl, .cons hd .nil⟩ .nil
  | @cons entry entry' rest rest' hentry hrest ih =>
      obtain ⟨first, ds⟩ := entry
      obtain ⟨first', ds'⟩ := entry'
      obtain ⟨rfl, hds⟩ := hentry
      simp only [file]
      split
      · exact .cons ⟨rfl, .cons hd .nil⟩ (.cons ⟨rfl, hds⟩ hrest)
      · split
        · exact .cons ⟨rfl, .cons hd hds⟩ hrest
        · exact .cons ⟨rfl, hds⟩ ih

/-- **Reports that correspond record by record correspond line by line.** -/
theorem rel_byLine {S : Diagnostic → Diagnostic → Prop} {records records' : List LineRecord}
    (h : List.Forall₂ (UnderSameKey S) records records') :
    List.Forall₂ (UnderSameKey (List.Forall₂ S)) (byLine records) (byLine records') := by
  induction h with
  | nil => exact .nil
  | cons hrecord _ ih => exact rel_file hrecord ih

end Reports

/-! ### Layouts -/

/-- A source with more than blanks is assembled. -/
theorem assemble?_of_not_blank {source : Text} (h : Text.isAllBlank source = false) :
    assemble? source = some (.ofLayout (.ofSource source)) := by
  simp [assemble?, h]

namespace Layout

/-- Two layouts that do the same line by line. -/
structure Respelled (R : Text → Text → Prop) (l l' : Layout) : Prop where
  records : List.Forall₂ (Record.Respelled R) l.records l'.records
  counter : l'.final.counter = l.final.counter
  segmentName : l'.segmentName = l.segmentName
  names : l.names.Respelled R l'.names
  endLine : l'.endLine = l.endLine
  length : l'.lines.length = l.lines.length

namespace Respelled

variable {R : Text → Text → Prop} {l l' : Layout}

/-- Respelled layouts have respelled items, under the same lines. -/
theorem items (h : l.Respelled R l') :
    List.Forall₂ (UnderSameKey (Item.Respelled R)) l.items l'.items :=
  rel_items h.records fun hr => ⟨hr.number, hr.effect.item?⟩

/-- The items have the same sizes on the same lines. -/
theorem sizes_eq (h : l.Respelled R l') :
    l'.items.map (fun entry => (entry.1, entry.2.size)) =
      l.items.map fun entry => (entry.1, entry.2.size) := by
  have hitems := h.items
  generalize l.items = items at hitems
  generalize l'.items = items' at hitems
  induction hitems with
  | nil => rfl
  | cons hentry _ ih => rw [List.map_cons, List.map_cons, ih, hentry.1, hentry.2.size_eq]

/-- All addresses are the same. -/
theorem addresses_eq (h : l.Respelled R l') : l'.addresses = l.addresses :=
  addresses_of_respelled h.records

/-- The first address of a kind is the same if the kind does not depend on spelling. -/
theorem firstAddress_eq (h : l.Respelled R l') {p : Effect → Bool}
    (hp : ∀ {e e' : Effect}, e.Respelled R e' → p e' = p e) :
    l'.firstAddress p = l.firstAddress p := by
  have hfirst := rel_find? h.records fun hr => hp hr.effect
  unfold firstAddress
  generalize (l.records.find? fun r => p r.verdict.effect) = x at hfirst
  generalize (l'.records.find? fun r => p r.verdict.effect) = y at hfirst
  cases hfirst with
  | none => rfl
  | some hr => exact hr.counter

theorem startAddress_eq (h : l.Respelled R l') : l'.startAddress = l.startAddress :=
  h.firstAddress_eq Effect.Respelled.isSome_item?_eq

theorem entryPoint_eq (h : l.Respelled R l') : l'.entryPoint = l.entryPoint := by
  rw [Layout.entryPoint_eq, Layout.entryPoint_eq]
  exact h.firstAddress_eq Effect.Respelled.isCollected_eq

theorem extent_eq (h : l.Respelled R l') : l'.extent = l.extent := by
  rw [extent, extent, h.counter, h.startAddress_eq]

theorem segmentLength_eq (h : l.Respelled R l') : l'.segmentLength = l.segmentLength := by
  rw [segmentLength, segmentLength, h.extent_eq]

theorem encoded_eq (h : l.Respelled R l') : l'.image.encoded = l.image.encoded :=
  Image.encoded_respelled h.items h.names

theorem hex_eq (h : l.Respelled R l') : l'.image.hex = l.image.hex := by
  rw [Image.hex, Image.hex, h.encoded_eq]

theorem body_eq (h : l.Respelled R l') : l'.image.body = l.image.body := by
  rw [Image.body, Image.body, h.encoded_eq]

/-- What the scan finds corresponds. -/
theorem scanFindings (h : l.Respelled R l') :
    List.Forall₂ (UnderSameKey (Finding.Respelled R)) l.findings l'.findings := by
  have hlength : List.Forall₂ (UnderSameKey (Finding.Respelled R)) l.lengthFindings
      l'.lengthFindings := by
    have hlast : l'.lastLine = l.lastLine := by
      rw [lastLine, lastLine, h.endLine, h.length]
    rw [lengthFindings, lengthFindings, h.extent_eq, hlast]
    split
    · exact .cons ⟨rfl, rfl, rfl, .none⟩ .nil
    · exact .nil
  exact List.rel_append (findings_of_respelled h.records) hlength

/-- What is found altogether corresponds. -/
theorem findings (h : l.Respelled R l') :
    List.Forall₂ (UnderSameKey (Finding.Respelled R)) (l.findings ++ l.image.findings)
      (l'.findings ++ l'.image.findings) :=
  List.rel_append h.scanFindings (Image.findings_respelled h.items h.names)

/-- **The errors correspond**, in the order in which they were found. -/
theorem errors (h : l.Respelled R l') :
    List.Forall₂ (UnderSameKey (Diagnostic.Respelled R)) l.report.errors l'.report.errors :=
  Report.rel_select .error h.findings

/-- **The warnings correspond.** -/
theorem warnings (h : l.Respelled R l') :
    List.Forall₂ (UnderSameKey (Diagnostic.Respelled R)) l.report.warnings l'.report.warnings :=
  Report.rel_select .warning h.findings

/-- There are errors in both layouts or in neither. -/
theorem hasErrors_eq (h : l.Respelled R l') : l'.report.hasErrors = l.report.hasErrors := by
  have herrors := h.errors
  unfold Report.hasErrors
  generalize l.report.errors = es at herrors
  generalize l'.report.errors = es' at herrors
  cases herrors <;> rfl

/-- **The object record is the same.** -/
theorem objectBytes_eq (h : l.Respelled R l') :
    (Assembly.ofLayout l').objectBytes = (Assembly.ofLayout l).objectBytes := by
  have hrecord : l'.objectRecord = l.objectRecord := by
    rw [objectRecord, objectRecord, h.segmentName, h.segmentLength_eq, h.startAddress_eq,
      h.body_eq, h.entryPoint_eq]
  simp only [Assembly.ofLayout, h.hasErrors_eq, hrecord]

end Respelled

end Layout

end SegmentAssembler
