import Mathlib.Data.List.Forall2
import SegmentAssembler.Proofs.AddressAccounting
import SegmentAssembler.Proofs.ImageLines
import SegmentAssembler.Proofs.NameResolution
import SegmentAssembler.Proofs.ShiftedRuns
import SegmentAssembler.Proofs.SourceEditing
import SegmentAssembler.Proofs.StatementForms

/-!
# Relocation

A program that begins with an origin, and has no further one, can be moved by
changing that one number.  Every address moves along; the code stays as it is,
save for the words that hold an address.  Distances do not change, so jumps do
not either.

* `Instruction.Shifted.bytes_eq`, `Instruction.Shifted.bytes_of_takesAddress` —
  two encodings of one instruction at a distance;
* `Layout.Shifted` — two layouts at a distance, behind their first two lines;
  `Shifted.items`, `Shifted.addressAt?`, `Shifted.firstAddress` and `Shifted.code`
  say so of what is read off them;
* `shifted_ofSource` — the layouts of two sources that differ in their origin;
* `relocation` — what this makes of the assembled program.
-/

namespace SegmentAssembler

/-! ### Encodings at a distance -/

/-- One of the operands is an address. -/
def Instruction.takesAddress (i : Instruction) : Prop :=
  i.op1.map Operand.kind = some .address ∨ i.op2.map Operand.kind = some .address

namespace Parts.Composed

variable {d : Int} {names names' : SymbolTable} {here here' : Nat} {op1 : Operand}
  {op2 : Option Operand} {q q' : Parts}

/-- **The second byte does not move.**  The distance to a label is the same
from everywhere. -/
theorem second_eq (hnames : names.Shifted d names') (hhere : AddressShifted d here here')
    (h : q.Composed names here op1 op2) (h' : q'.Composed names' here' op1 op2) :
    q'.second = q.second := by
  cases h with
  | @jump name symbol hname hkind hrange =>
      cases h' with
      | @jump _ symbol' hname' hkind' hrange' =>
          have haddress := (hnames.of_get? hname hname').address
          unfold AddressShifted at hhere haddress
          have hdistance : (symbol'.address : Int) - here' = symbol.address - here := by omega
          rw [hdistance]
  | _ =>
      cases h'
      rfl

/-- Without an address there is nothing to move in the tail. -/
theorem tail_eq (h : q.Composed names here op1 op2) (h' : q'.Composed names' here' op1 op2)
    (hno : ¬ (op1.kind = .address ∨ op2.map Operand.kind = some .address)) :
    q'.tail = q.tail := by
  cases h with
  | load a hname => exact absurd (Or.inr rfl) hno
  | store b hname => exact absurd (Or.inl rfl) hno
  | _ =>
      cases h'
      rfl

end Parts.Composed

namespace Instruction

variable {d : Int} {names names' : SymbolTable} {i j : Instruction} {m m' : Mnemonic}
  {e e' : Encoded}

/-- Two encodings of one instruction, part by part. -/
theorem Shifted.exists_parts (hij : i.Shifted d j) (hnames : names.Shifted d names')
    (hformed : i.Formed m) (hformed' : j.Formed m')
    (hcode : i.encode names = .ok e) (hcode' : j.encode names' = .ok e') :
    ∃ op1 q q', i.op1 = some op1 ∧ q.Composed names i.address op1 i.op2 ∧
      q'.Composed names' j.address op1 i.op2 ∧ q'.second = q.second ∧
      e.bytes = join i.template q ∧ e'.bytes = join i.template q' := by
  obtain ⟨op1, -, q, hop1, -, -, hq, -, hbytes⟩ := hformed.exists_composed hcode
  obtain ⟨op1', -, q', hop1', -, -, hq', -, hbytes'⟩ := hformed'.exists_composed hcode'
  rw [hij.op1, hop1] at hop1'
  obtain rfl := Option.some.inj hop1'
  rw [hij.op2] at hq'
  rw [hij.template] at hbytes'
  exact ⟨op1, q, q', hop1, hq, hq', hq.second_eq hnames hij.address hq', hbytes, hbytes'⟩

/-- **Without an address the encoding does not move.** -/
theorem Shifted.bytes_eq (hij : i.Shifted d j) (hnames : names.Shifted d names')
    (hformed : i.Formed m) (hformed' : j.Formed m')
    (hcode : i.encode names = .ok e) (hcode' : j.encode names' = .ok e')
    (hno : ¬ i.takesAddress) : e'.bytes = e.bytes := by
  obtain ⟨op1, q, q', hop1, hq, hq', hsecond, hbytes, hbytes'⟩ :=
    hij.exists_parts hnames hformed hformed' hcode hcode'
  have htail : q'.tail = q.tail := hq.tail_eq hq' (by simpa [takesAddress, hop1] using hno)
  rw [hbytes, hbytes', join, join, hsecond, htail]

/-- **With an address the encoding moves in its last two bytes**, which hold
what the name of the operand stands for. -/
theorem Shifted.bytes_of_takesAddress (hij : i.Shifted d j) (hnames : names.Shifted d names')
    (hformed : i.Formed m) (hformed' : j.Formed m')
    (hcode : i.encode names = .ok e) (hcode' : j.encode names' = .ok e')
    (htakes : i.takesAddress) :
    ∃ opcode second name x y, names.get? name = some x ∧ names'.get? name = some y ∧
      e.bytes = opcode :: second :: wordBytes x.address ∧
      e'.bytes = opcode :: second :: wordBytes y.address := by
  obtain ⟨op1, q, q', hop1, hq, hq', hsecond, hbytes, hbytes'⟩ :=
    hij.exists_parts hnames hformed hformed' hcode hcode'
  obtain ⟨name, hname⟩ : ∃ name, op1 = .address name ∨ i.op2 = some (.address name) := by
    rcases htakes with hkind | hkind
    · obtain ⟨name, hname⟩ := Operand.of_map_kind hkind
      exact ⟨name, Or.inl (Option.some.inj (hop1.symm.trans hname))⟩
    · obtain ⟨name, hname⟩ := Operand.of_map_kind hkind
      exact ⟨name, Or.inr hname⟩
  obtain ⟨x, hx, htail⟩ := hq.word_of_address hname
  obtain ⟨y, hy, htail'⟩ := hq'.word_of_address hname
  refine ⟨UInt8.ofNat i.template.opcode, q.second.byte, name, x, y, hx, hy, ?_, ?_⟩
  · rw [hbytes, join, htail]
    rfl
  · rw [hbytes', join, htail', hsecond]
    rfl

end Instruction

/-- An instruction with an operand has a second byte. -/
theorem Instruction.two_le_lengthOf (op1 : Operand) (op2 : Option Operand) :
    2 ≤ lengthOf (some op1) op2 := by
  cases op2 with
  | none => cases op1 <;> simp [lengthOf, lengthOfKinds, Operand.kind]
  | some op =>
      simp only [lengthOf, Option.map_some, lengthOfKinds]
      omega

/-- The item is encoded with an address in it. -/
def Item.takesAddress : Item → Prop
  | .instruction i => i.takesAddress
  | .data _ => False

/-- The bytes of an item in two programs at a distance: the same, or an address
at the distance behind the same two bytes. -/
inductive Item.BytesShifted (d : Int) (item : Item) : List UInt8 → List UInt8 → Prop
  | same (hno : ¬ item.takesAddress) (bytes : List UInt8) : BytesShifted d item bytes bytes
  | word (htakes : item.takesAddress) (opcode second : UInt8) {x y : Nat}
      (hx : x ≤ topAddress) (hy : y ≤ topAddress) (hxy : AddressShifted d x y) :
      BytesShifted d item (opcode :: second :: wordBytes x) (opcode :: second :: wordBytes y)

/-- Outside the address the bytes are the same. -/
theorem Item.BytesShifted.getElem?_eq {d : Int} {item : Item} {bs bs' : List UInt8}
    (h : item.BytesShifted d bs bs') {p : Nat} (hp : item.takesAddress → p ≠ 2 ∧ p ≠ 3) :
    bs'[p]? = bs[p]? := by
  cases h with
  | same hno bytes => rfl
  | word htakes opcode second hx hy hxy =>
      obtain ⟨htwo, hthree⟩ := hp htakes
      match p with
      | 0 | 1 => rfl
      | 2 => exact absurd rfl htwo
      | 3 => exact absurd rfl hthree
      | p + 4 => rfl

/-- The word that begins at a place in the code, the low byte first. -/
def wordAt? (bytes : List UInt8) (k : Nat) : Option Nat :=
  bytes[k]?.bind fun low => bytes[k + 1]?.map fun high => low.toNat + 256 * high.toNat

/-- The word behind the first two bytes is read back. -/
theorem wordAt?_wordBytes {x : Nat} (hx : x ≤ topAddress) (opcode second : UInt8) :
    wordAt? (opcode :: second :: wordBytes x) 2 = some x :=
  congrArg some (toNat_wordBytes hx)

theorem Effect.Shifted.isCollected_eq {d : Int} {e e' : Effect} (h : e.Shifted d e') :
    e'.isCollected = e.isCollected := by
  cases h <;> rfl

theorem Effect.isCollected_of_item?_none {e : Effect} (h : e.item? = none) :
    e.isCollected = false := by
  rw [← Bool.not_eq_true, isCollected_iff]
  simp [h]

/-! ### Layouts at a distance -/

namespace Layout

/-- Two layouts whose first two lines contribute no item, and which run at a
distance behind them. -/
structure Shifted (d : Int) (l l' : Layout) : Prop where
  front_items : ∀ r ∈ l.records.take 2 ++ l'.records.take 2, r.verdict.effect.item? = none
  front_lines : ∀ r ∈ l.records.take 2 ++ l'.records.take 2, r.line.number ≤ 2
  front_findings : (l'.records.take 2).flatMap Record.findings =
    (l.records.take 2).flatMap Record.findings
  records : List.Forall₂ (Record.Shifted d) (l.records.drop 2) (l'.records.drop 2)
  final : l.final.Shifted d l'.final

section Front

variable {l : Layout}

/-- The items stand below the first two lines, which have none. -/
private theorem items_eq_drop
    (h : ∀ r ∈ l.records.take 2, r.verdict.effect.item? = none) :
    l.items = (l.records.drop 2).filterMap Record.item? := by
  have hfront : (l.records.take 2).filterMap Record.item? = [] := by
    rw [List.filterMap_eq_nil_iff]
    intro r hr
    simp [Record.item?, h r hr]
  rw [items]
  conv_lhs => rw [← List.take_append_drop 2 l.records]
  rw [List.filterMap_append, hfront, List.nil_append]

/-- The first address of a kind stands below the first two lines. -/
private theorem firstAddress_eq_drop {p : Effect → Bool}
    (h : ∀ r ∈ l.records.take 2, p r.verdict.effect = false) :
    l.firstAddress p =
      (((l.records.drop 2).find? fun r => p r.verdict.effect).map
        fun r => r.before.counter).getD 0 := by
  have hfront : (l.records.take 2).find? (fun r => p r.verdict.effect) = none := by
    rw [List.find?_eq_none]
    intro r hr
    simp [h r hr]
  have hfind : (l.records.find? fun r => p r.verdict.effect) =
      (l.records.drop 2).find? fun r => p r.verdict.effect := by
    conv_lhs => rw [← List.take_append_drop 2 l.records]
    rw [List.find?_append, hfront, Option.none_or]
  rw [firstAddress, hfind]
  cases (l.records.drop 2).find? fun r => p r.verdict.effect <;> rfl

/-- An address further down is looked up below the first two lines. -/
private theorem addressAt?_eq_drop {n : Nat}
    (h : ∀ r ∈ l.records.take 2, r.line.number < n) :
    l.addressAt? n = ((l.records.drop 2).filterMap Record.address?).lookup n := by
  have hfront : ((l.records.take 2).filterMap Record.address?).lookup n = none := by
    rw [List.lookup_eq_none_iff]
    intro entry hentry
    obtain ⟨r, hr, hshown⟩ := List.mem_filterMap.mp hentry
    have hlt := h r hr
    rw [number_of_address? hshown]
    exact bne_iff_ne.mpr (Nat.ne_of_gt hlt)
  rw [addressAt?, addresses]
  conv_lhs => rw [← List.take_append_drop 2 l.records]
  rw [List.filterMap_append, List.lookup_append, hfront, Option.none_or]

end Front

namespace Shifted

variable {d : Int} {l l' : Layout}

/-- The items stand on the same lines, at a distance. -/
theorem items (h : l.Shifted d l') :
    List.Forall₂ (UnderSameKey (Item.Shifted d)) l.items l'.items := by
  have hfront := List.forall_mem_append.mp h.front_items
  rw [items_eq_drop hfront.1, items_eq_drop hfront.2]
  exact shifted_items h.records

/-- Behind the first two lines, so do the addresses. -/
theorem addressAt? (h : l.Shifted d l') {n : Nat} (hn : 2 < n) :
    Option.Rel (AddressShifted d) (l.addressAt? n) (l'.addressAt? n) := by
  have hfront := List.forall_mem_append.mp h.front_lines
  rw [addressAt?_eq_drop fun r hr => Nat.lt_of_le_of_lt (hfront.1 r hr) hn,
    addressAt?_eq_drop fun r hr => Nat.lt_of_le_of_lt (hfront.2 r hr) hn]
  exact rel_lookup (shifted_addresses h.records) n

/-- The scan has the same to say of both. -/
theorem record_findings (h : l.Shifted d l') :
    l'.records.flatMap Record.findings = l.records.flatMap Record.findings := by
  rw [← List.take_append_drop 2 l'.records, ← List.take_append_drop 2 l.records,
    List.flatMap_append, List.flatMap_append, h.front_findings, findings_eq_of_shifted h.records]

/-- The first line of a kind is the same in both, or there is none. -/
theorem firstAddress (h : l.Shifted d l') {p : Effect → Bool}
    (hp : ∀ {e e' : Effect}, e.Shifted d e' → p e' = p e)
    (hitem : ∀ e, e.item? = none → p e = false) :
    ((∃ r ∈ l.records, p r.verdict.effect = true) ∧
        AddressShifted d (l.firstAddress p) (l'.firstAddress p)) ∨
      ((∀ r ∈ l.records, p r.verdict.effect = false) ∧
        l.firstAddress p = 0 ∧ l'.firstAddress p = 0) := by
  obtain ⟨hfront, hfront'⟩ := List.forall_mem_append.mp h.front_items
  rw [firstAddress_eq_drop fun r hr => hitem _ (hfront r hr),
    firstAddress_eq_drop fun r hr => hitem _ (hfront' r hr)]
  have hfind := rel_find? h.records fun hr => hp hr.effect
  cases hfound : (l.records.drop 2).find? fun r => p r.verdict.effect with
  | none =>
      rw [hfound] at hfind
      right
      refine ⟨fun r hr => ?_, rfl, ?_⟩
      · rw [← List.take_append_drop 2 l.records] at hr
        rcases List.mem_append.mp hr with hr | hr
        · exact hitem _ (hfront r hr)
        · simpa using List.find?_eq_none.mp hfound r hr
      · generalize (l'.records.drop 2).find? (fun r => p r.verdict.effect) = found' at hfind
        cases hfind
        rfl
  | some r =>
      rw [hfound] at hfind
      left
      have hkind := List.find?_some hfound
      refine ⟨⟨r, List.mem_of_mem_drop (List.mem_of_find?_eq_some hfound), hkind⟩, ?_⟩
      generalize (l'.records.drop 2).find? (fun r => p r.verdict.effect) = found' at hfind
      cases hfind with
      | some hr => exact hr.before.counter

end Shifted

/-! ### Code at a distance -/

/-- What stands in the same place of two related lists. -/
theorem rel_getElem? {α β : Type} {R : α → β → Prop} {xs : List α} {ys : List β}
    (h : List.Forall₂ R xs ys) (j : Nat) : Option.Rel R xs[j]? ys[j]? := by
  induction h generalizing j with
  | nil => exact .none
  | cons hxy _ ih =>
      cases j with
      | zero => exact .some hxy
      | succ j => exact ih j

theorem sizes_eq_of_shifted {d : Int} {xs ys : List (Nat × Item)}
    (h : List.Forall₂ (UnderSameKey (Item.Shifted d)) xs ys) :
    ys.map (fun entry => entry.2.size) = xs.map fun entry => entry.2.size := by
  induction h with
  | nil => rfl
  | cons hxy _ ih => rw [List.map_cons, List.map_cons, ih, hxy.2.size_eq]

/-- Items have the same place in the code, wherever the code begins. -/
theorem Shifted.offset_eq {d : Int} {l l' : Layout} (h : l.Shifted d l') (j : Nat) :
    l'.offset j = l.offset j := by
  rw [offset, offset, sizes_eq_of_shifted (List.forall₂_take j h.items)]

/-- A place below the sum of some sizes lies in one of them. -/
private theorem exists_part_of_lt_sum {sizes : List Nat} {k : Nat} (h : k < sizes.sum) :
    ∃ j size p, sizes[j]? = some size ∧ p < size ∧ k = (sizes.take j).sum + p := by
  induction sizes generalizing k with
  | nil => exact nomatch h
  | cons size rest ih =>
      rw [List.sum_cons] at h
      by_cases hk : k < size
      · exact ⟨0, size, k, rfl, hk, by simp⟩
      · obtain ⟨j, other, p, hj, hp, hsum⟩ := ih (k := k - size) (by omega)
        refine ⟨j + 1, other, p, hj, hp, ?_⟩
        rw [List.take_succ_cons, List.sum_cons]
        omega

section Code

variable {source source' : Text} {d : Int}

/-- Every place of the code belongs to an item. -/
theorem exists_item_of_lt (hclean : (ofSource source).report.hasErrors = false) {k : Nat}
    (hk : k < (ofSource source).image.body.length) :
    ∃ j entry p, (ofSource source).items[j]? = some entry ∧ p < entry.2.size ∧
      k = (ofSource source).offset j + p := by
  rw [length_body (exists_encode_of_no_errors hclean)] at hk
  obtain ⟨j, size, p, hj, hp, hsum⟩ := exists_part_of_lt_sum hk
  rw [List.getElem?_map, Option.map_eq_some_iff] at hj
  obtain ⟨entry, hentry, rfl⟩ := hj
  exact ⟨j, entry, p, hentry, hp, by rw [hsum, offset, List.map_take]⟩

/-- The bytes of an item stand in the code at its offset. -/
theorem body_at_offset (hclean : (ofSource source).report.hasErrors = false) {j : Nat}
    {entry : Nat × Item} (h : (ofSource source).items[j]? = some entry) :
    ∃ e, entry.2.encode (ofSource source).names = .ok e ∧ e.bytes.length = entry.2.size ∧
      ∀ p < entry.2.size,
        (ofSource source).image.body[(ofSource source).offset j + p]? = e.bytes[p]? := by
  obtain ⟨e, hcode, hlength, more, hmore⟩ :=
    bytes_at_offset (exists_encode_of_no_errors hclean) h
  refine ⟨e, hcode, hlength, fun p hp => ?_⟩
  rw [← List.getElem?_drop, ← hmore, List.getElem?_append_left (by omega)]

/-- **The bytes of an item in two programs at a distance.** -/
theorem bytesShifted_of_shifted (h : (ofSource source).Shifted d (ofSource source'))
    {n : Nat} {item item' : Item} {e e' : Encoded} (hitems : item.Shifted d item')
    (hitem : (n, item) ∈ (ofSource source).items) (hitem' : (n, item') ∈ (ofSource source').items)
    (hcode : item.encode (ofSource source).names = .ok e)
    (hcode' : item'.encode (ofSource source').names = .ok e') :
    item.BytesShifted d e.bytes e'.bytes := by
  have hnames : (ofSource source).names.Shifted d (ofSource source').names := h.final.names
  cases hitems with
  | data x =>
      cases hcode
      cases hcode'
      exact .same id _
  | @instruction i i' hi =>
      obtain ⟨-, -, m, -, -, hformed, -⟩ := formed_of_mem_items hitem
      obtain ⟨-, -, m', -, -, hformed', -⟩ := formed_of_mem_items hitem'
      by_cases htakes : (Item.instruction i).takesAddress
      · obtain ⟨opcode, second, name, x, y, hx, hy, hbytes, hbytes'⟩ :=
          hi.bytes_of_takesAddress hnames hformed hformed' hcode hcode' htakes
        rw [hbytes, hbytes']
        exact .word htakes opcode second (address_le_top_of_get? hx) (address_le_top_of_get? hy)
          (hnames.of_get? hx hy).address
      · rw [hi.bytes_eq hnames hformed hformed' hcode hcode' htakes]
        exact .same htakes _

/-- **An item in the code of two programs at a distance.** -/
theorem Shifted.code (h : (ofSource source).Shifted d (ofSource source'))
    (hclean : (ofSource source).report.hasErrors = false)
    (hclean' : (ofSource source').report.hasErrors = false) {j : Nat} {entry : Nat × Item}
    (hentry : (ofSource source).items[j]? = some entry) :
    ∃ bs bs', entry.2.BytesShifted d bs bs' ∧ bs.length = entry.2.size ∧
      ∀ p < entry.2.size,
        (ofSource source).image.body[(ofSource source).offset j + p]? = bs[p]? ∧
        (ofSource source').image.body[(ofSource source).offset j + p]? = bs'[p]? := by
  have hrel := rel_getElem? h.items j
  rw [hentry] at hrel
  cases hentry' : (ofSource source').items[j]? with
  | none =>
      rw [hentry'] at hrel
      exact nomatch hrel
  | some entry' =>
      rw [hentry'] at hrel
      cases hrel with
      | some hpair =>
          obtain ⟨n, item⟩ := entry
          obtain ⟨n', item'⟩ := entry'
          obtain ⟨rfl, hitems⟩ := hpair
          obtain ⟨e, hcode, hlength, hbody⟩ := body_at_offset hclean hentry
          obtain ⟨e', hcode', hlength', hbody'⟩ := body_at_offset hclean' hentry'
          have hbytes := bytesShifted_of_shifted h hitems (List.mem_of_getElem? hentry)
            (List.mem_of_getElem? hentry') hcode hcode'
          refine ⟨e.bytes, e'.bytes, hbytes, hlength, fun p hp => ⟨hbody p hp, ?_⟩⟩
          rw [← h.offset_eq]
          exact hbody' p (by rwa [hitems.size_eq])

end Code

end Layout

/-! ### Sources that begin with an origin -/

/-- A source that opens a segment, sets the counter and goes on with the given
lines. -/
def orgSource (id number : Text) (rest : List Text) : Text :=
  joinLines ((id ++ ' ' :: "SEGMENT".toList) :: ("ORG".toList ++ ' ' :: number) :: rest)

/-- The directive that a line begins with. -/
def leadingDirective? (text : Text) : Option Directive :=
  (words (Text.trim text)).head?.bind Directive.ofName?

section OrgSource

variable {id number : Text} {rest : List Text} {a : Nat}

/-- The lines behind the origin. -/
def furtherLines (rest : List Text) : List Line :=
  (rest.zipIdx 3).map fun (text, number) => ⟨number, Text.trim text⟩

def openingLine (id : Text) : CodeLine := ⟨1, id, ["SEGMENT".toList]⟩

def originLine (number : Text) : CodeLine := ⟨2, "ORG".toList, [number]⟩

/-- The lines of a source with an origin: the opening, the origin and the rest. -/
theorem codeLines_orgSource (hid : IsWord id) (hnumber : IsWord number)
    (hrest : ∀ text ∈ rest, '\n' ∉ text) :
    codeLines (splitLines (orgSource id number rest)) =
      openingLine id :: originLine number :: codeLines (furtherLines rest) := by
  have hsegment : IsWord "SEGMENT".toList := by decide
  have horg : IsWord "ORG".toList := by decide
  have hlines : ∀ text ∈ (id ++ ' ' :: "SEGMENT".toList) ::
      ("ORG".toList ++ ' ' :: number) :: rest, '\n' ∉ text := by
    refine List.forall_mem_cons.mpr ⟨?_, List.forall_mem_cons.mpr ⟨?_, hrest⟩⟩
    · simp [hid.newline_not_mem]
    · simp [hnumber.newline_not_mem]
  rw [orgSource, splitLines_joinLines (List.cons_ne_nil _ _) hlines]
  simp only [List.zipIdx_cons, List.map_cons, codeLines, List.filterMap_cons, Line.code?,
    words_pair hid hsegment, words_pair horg hnumber]
  rfl

/-- No further line is an origin, if none of the texts begins with one. -/
theorem directive_of_mem_furtherLines (h : ∀ text ∈ rest, leadingDirective? text ≠ some .org) :
    ∀ line ∈ codeLines (furtherLines rest), Directive.ofName? line.head ≠ some .org := by
  intro line hline
  obtain ⟨⟨n, text⟩, htext, hcode⟩ := List.mem_filterMap.mp hline
  obtain ⟨⟨text, k⟩, hzip, heq⟩ := List.mem_map.mp htext
  cases heq
  have hnot := h text (List.fst_mem_of_mem_zipIdx hzip)
  unfold Line.code? at hcode
  split at hcode
  · exact nomatch hcode
  · rename_i head more hwords
    cases hcode
    simpa [leadingDirective?, hwords] using hnot

/-- What happens on the opening line. -/
def openingRecord (id : Text) : Record :=
  ⟨openingLine id, {}, .accept (.opened (Text.upper id))⟩

/-- What happens on the line with the origin. -/
def originRecord (id number : Text) (a : Nat) : Record :=
  ⟨originLine number, (openingRecord id).next, .accept (.moved a)⟩

/-- A clean line with an origin moves the counter there. -/
theorem State.scan_origin {s : State} (hphase : s.phase ≠ .pending)
    (hread : Numeral.read? number = some (a : Int))
    (hclean : (s.scan (originLine number)).verdict.Clean) :
    s.scan (originLine number) = ⟨originLine number, s, .accept (.moved a)⟩ := by
  have hdirective : Directive.ofName? (originLine number).head = some .org := rfl
  obtain ⟨-, hgrants⟩ := grants_of_clean hphase hclean
  rw [Statement.ofWords_of_directive hdirective] at hgrants
  rw [scan]
  generalize s.judge (originLine number) = verdict at hgrants
  cases hgrants with
  | org hread' hlow htop =>
      obtain rfl := Option.some.inj (hread.symm.trans hread')
      rfl

/-- With an item, the program does not end on its first line. -/
theorem isEnd_openingLine (hid : IsWord id) (hnumber : IsWord number)
    (hrest : ∀ text ∈ rest, '\n' ∉ text)
    (hitems : (Layout.ofSource (orgSource id number rest)).items ≠ []) :
    (openingLine id).isEnd = false := by
  cases hend : (openingLine id).isEnd with
  | false => rfl
  | true =>
      have hnone : programLines (splitLines (orgSource id number rest)) = [] := by
        rw [programLines, codeLines_orgSource hid hnumber hrest,
          List.takeWhile_cons_of_neg (by rw [hend]; decide)]
      refine absurd ?_ hitems
      rw [Layout.items, Layout.records_ofSource, hnone]
      rfl

/-- **The records of such a source**, if it is clean. -/
theorem records_orgSource (hid : IsWord id) (hread : Numeral.read? number = some (a : Int))
    (hrest : ∀ text ∈ rest, '\n' ∉ text) (hend : (openingLine id).isEnd = false)
    (hclean : ∀ r ∈ (Layout.ofSource (orgSource id number rest)).records, r.verdict.Clean) :
    (Layout.ofSource (orgSource id number rest)).records =
      openingRecord id :: originRecord id number a ::
        State.run (originRecord id number a).next
          ((codeLines (furtherLines rest)).takeWhile fun line => !line.isEnd) := by
  have hprogram : programLines (splitLines (orgSource id number rest)) =
      openingLine id :: originLine number ::
        (codeLines (furtherLines rest)).takeWhile fun line => !line.isEnd := by
    rw [programLines, codeLines_orgSource hid (Numeral.isWord_of_read? hread) hrest,
      List.takeWhile_cons_of_pos (by rw [hend]; rfl), List.takeWhile_cons_of_pos rfl]
  rw [Layout.records_ofSource, hprogram, State.run_cons, State.run_cons] at hclean
  rw [Layout.records_ofSource, hprogram, State.run_cons, State.run_cons]
  obtain ⟨hopening, hclean⟩ := List.forall_mem_cons.mp hclean
  obtain ⟨word, hword, hsegment, hname, hkeyword⟩ := State.judgeOpening_clean_iff.mp hopening
  have hscan : State.scan {} (openingLine id) = openingRecord id :=
    State.scan_opening hname hkeyword rfl
  rw [hscan] at hclean ⊢
  obtain ⟨horigin, -⟩ := List.forall_mem_cons.mp hclean
  rw [State.scan_origin (show Phase.opened ≠ .pending by decide) hread horigin]
  rfl

end OrgSource

namespace Layout

/-- **Two sources that differ in their origin have layouts at a distance.** -/
theorem shifted_ofSource {id number number' : Text} {rest : List Text} {a b : Nat}
    (hid : IsWord id) (hread : Numeral.read? number = some (a : Int))
    (hread' : Numeral.read? number' = some (b : Int)) (hrest : ∀ text ∈ rest, '\n' ∉ text)
    (horg : ∀ text ∈ rest, leadingDirective? text ≠ some .org)
    (hclean : ∀ r ∈ (ofSource (orgSource id number rest)).records, r.verdict.Clean)
    (hclean' : ∀ r ∈ (ofSource (orgSource id number' rest)).records, r.verdict.Clean)
    (hitems : (ofSource (orgSource id number rest)).items ≠ []) :
    (ofSource (orgSource id number rest)).Shifted (b - a)
      (ofSource (orgSource id number' rest)) := by
  have hend := isEnd_openingLine hid (Numeral.isWord_of_read? hread) hrest hitems
  have hrecords := records_orgSource hid hread hrest hend hclean
  have hrecords' := records_orgSource hid hread' hrest hend hclean'
  have hstart :
      (originRecord id number a).next.Shifted (b - a) (originRecord id number' b).next := by
    refine ⟨rfl, rfl, ?_, .nil⟩
    change (b : Int) = a + (b - a)
    omega
  rw [hrecords] at hclean
  rw [hrecords'] at hclean'
  obtain ⟨hrun, hfinish⟩ := State.shifted_run hstart (show Phase.opened ≠ .pending by decide)
    (fun line hline => directive_of_mem_furtherLines horg line
      ((List.takeWhile_sublist _).mem hline))
    (List.forall_mem_cons.mp (List.forall_mem_cons.mp hclean).2).2
    (List.forall_mem_cons.mp (List.forall_mem_cons.mp hclean').2).2
  refine ⟨?_, ?_, ?_, ?_, ?_⟩
  · rw [hrecords, hrecords']
    simp [openingRecord, originRecord, Verdict.accept, Effect.item?]
  · rw [hrecords, hrecords']
    simp [openingRecord, originRecord, openingLine, originLine]
  · rw [hrecords, hrecords']
    rfl
  · rw [hrecords, hrecords']
    exact hrun
  · rw [final, final, hrecords, hrecords', State.finish_cons, State.finish_cons,
      State.finish_cons, State.finish_cons]
    exact hfinish

/-! ### The assembled program -/

/-- The second layout is the first one moved by a distance. -/
structure RelocatedBy (d : Int) (l l' : Layout) : Prop where
  segmentLength : l'.segmentLength = l.segmentLength
  items : List.Forall₂ (UnderSameKey fun x y => y.size = x.size) l.items l'.items
  warnings : l'.report.warnings = l.report.warnings
  names : l.names.Shifted d l'.names
  addresses : ∀ n, 2 < n → Option.Rel (AddressShifted d) (l.addressAt? n) (l'.addressAt? n)
  startAddress : AddressShifted d l.startAddress l'.startAddress
  entryPoint : (∃ n i, (n, .instruction i) ∈ l.items) →
    AddressShifted d l.entryPoint l'.entryPoint
  entryPoint_of_none : (∀ n i, (n, .instruction i) ∉ l.items) →
    l.entryPoint = 0 ∧ l'.entryPoint = 0
  body_length : l'.image.body.length = l.image.body.length
  /-- Outside the words that hold addresses the code is the same. -/
  body_eq : ∀ k,
    (∀ j entry, l.items[j]? = some entry → entry.2.takesAddress →
      k ≠ l.offset j + 2 ∧ k ≠ l.offset j + 3) →
    l'.image.body[k]? = l.image.body[k]?
  /-- These words move by the distance. -/
  body_word : ∀ j entry, l.items[j]? = some entry → entry.2.takesAddress →
    ∃ x y, wordAt? l.image.body (l.offset j + 2) = some x ∧
      wordAt? l'.image.body (l.offset j + 2) = some y ∧ AddressShifted d x y
  data_eq : ∀ j n x, l.items[j]? = some (n, .data x) → ∀ p < x.size,
    l'.image.body[l.offset j + p]? = l.image.body[l.offset j + p]?
  jump_eq : ∀ j n i target, l.items[j]? = some (n, .instruction i) →
    i.op1 = some (.displacement target) →
    l'.image.body[l.offset j + 1]? = l.image.body[l.offset j + 1]?

section Assembled

variable {source source' : Text} {d : Int}

/-- The start of the segment is shifted with its items. -/
theorem Shifted.startAddress (h : (ofSource source).Shifted d (ofSource source'))
    (hitems : (ofSource source).items ≠ []) :
    AddressShifted d (ofSource source).startAddress (ofSource source').startAddress := by
  rcases h.firstAddress (p := fun e => e.item?.isSome) (fun he => he.isSome_item?_eq)
      (fun e he => by rw [he]; rfl) with ⟨-, hshift⟩ | ⟨hnone, -⟩
  · exact hshift
  · refine absurd (List.filterMap_eq_nil_iff.mpr fun r hr => ?_) hitems
    simpa [Record.item?] using hnone r hr

/-- The entry is shifted with the instructions, and without one it stays zero. -/
theorem Shifted.entryPoint (h : (ofSource source).Shifted d (ofSource source')) :
    ((∃ n i, (n, .instruction i) ∈ (ofSource source).items) →
        AddressShifted d (ofSource source).entryPoint (ofSource source').entryPoint) ∧
      ((∀ n i, (n, .instruction i) ∉ (ofSource source).items) →
        (ofSource source).entryPoint = 0 ∧ (ofSource source').entryPoint = 0) := by
  rw [entryPoint_eq, entryPoint_eq]
  rcases h.firstAddress (fun he => he.isCollected_eq) (fun e => Effect.isCollected_of_item?_none)
    with ⟨⟨r, hr, hcollected⟩, hshift⟩ | ⟨hnone, hzero⟩
  · refine ⟨fun _ => hshift, fun hno => ?_⟩
    obtain ⟨i, hitem⟩ := Effect.isCollected_iff.mp hcollected
    exact absurd (mem_items_iff.mpr ⟨r, hr, rfl, hitem⟩) (hno r.line.number i)
  · refine ⟨fun hsome => ?_, fun _ => hzero⟩
    obtain ⟨n, i, hentry⟩ := hsome
    obtain ⟨r, hr, -, hitem⟩ := mem_items_iff.mp hentry
    have hnot := hnone r hr
    rw [Effect.isCollected_iff.mpr ⟨i, hitem⟩] at hnot
    exact nomatch hnot

/-- The code of two programs at a distance, place by place. -/
theorem Shifted.body_eq (h : (ofSource source).Shifted d (ofSource source'))
    (hclean : (ofSource source).report.hasErrors = false)
    (hclean' : (ofSource source').report.hasErrors = false)
    (hlength : (ofSource source').image.body.length = (ofSource source).image.body.length)
    {k : Nat}
    (hk : ∀ j entry, (ofSource source).items[j]? = some entry → entry.2.takesAddress →
      k ≠ (ofSource source).offset j + 2 ∧ k ≠ (ofSource source).offset j + 3) :
    (ofSource source').image.body[k]? = (ofSource source).image.body[k]? := by
  by_cases hlt : k < (ofSource source).image.body.length
  · obtain ⟨j, entry, p, hentry, hp, rfl⟩ := exists_item_of_lt hclean hlt
    obtain ⟨bs, bs', hbytes, -, hbody⟩ := h.code hclean hclean' hentry
    rw [(hbody p hp).1, (hbody p hp).2]
    refine hbytes.getElem?_eq fun htakes => ?_
    have hnot := hk j entry hentry htakes
    omega
  · rw [List.getElem?_eq_none (by omega), List.getElem?_eq_none (by omega)]

/-- The words of addresses in two programs at a distance. -/
theorem Shifted.body_word (h : (ofSource source).Shifted d (ofSource source'))
    (hclean : (ofSource source).report.hasErrors = false)
    (hclean' : (ofSource source').report.hasErrors = false) {j : Nat} {entry : Nat × Item}
    (hentry : (ofSource source).items[j]? = some entry) (htakes : entry.2.takesAddress) :
    ∃ x y, wordAt? (ofSource source).image.body ((ofSource source).offset j + 2) = some x ∧
      wordAt? (ofSource source').image.body ((ofSource source).offset j + 2) = some y ∧
      AddressShifted d x y := by
  obtain ⟨bs, bs', hbytes, hsize, hbody⟩ := h.code hclean hclean' hentry
  cases hbytes with
  | same hno bytes => exact absurd htakes hno
  | @word _ opcode second x y hx hy hxy =>
      -- two bytes and a word
      have hfour : entry.2.size = 4 := hsize.symm
      refine ⟨x, y, ?_, ?_, hxy⟩
      · rw [← wordAt?_wordBytes hx opcode second, wordAt?, wordAt?, (hbody 2 (by omega)).1,
          Nat.add_assoc, (hbody 3 (by omega)).1]
      · rw [← wordAt?_wordBytes hy opcode second, wordAt?, wordAt?, (hbody 2 (by omega)).2,
          Nat.add_assoc, (hbody 3 (by omega)).2]

/-- **What is at a distance without errors is relocated.** -/
theorem Shifted.relocatedBy (h : (ofSource source).Shifted d (ofSource source'))
    (hclean : (ofSource source).report.hasErrors = false)
    (hclean' : (ofSource source').report.hasErrors = false)
    (hitems : (ofSource source).items ≠ []) :
    (ofSource source).RelocatedBy d (ofSource source') := by
  have hstart := h.startAddress hitems
  have hlength : (ofSource source').image.body.length = (ofSource source).image.body.length := by
    rw [length_body (exists_encode_of_no_errors hclean),
      length_body (exists_encode_of_no_errors hclean'), sizes_eq_of_shifted h.items]
  exact {
    segmentLength := by
      have hfinal : ((ofSource source').final.counter : Int) =
          (ofSource source).final.counter + d := h.final.counter
      unfold AddressShifted at hstart
      unfold segmentLength extent
      omega
    items := h.items.imp fun x y hxy => ⟨hxy.1, hxy.2.size_eq⟩
    warnings := by rw [warnings_report, warnings_report, h.record_findings]
    names := h.final.names
    addresses := fun n hn => h.addressAt? hn
    startAddress := hstart
    entryPoint := h.entryPoint.1
    entryPoint_of_none := h.entryPoint.2
    body_length := hlength
    body_eq := fun k hk => h.body_eq hclean hclean' hlength hk
    body_word := fun j entry => h.body_word hclean hclean'
    data_eq := by
      intro j n x hentry p hp
      obtain ⟨bs, bs', hbytes, -, hbody⟩ := h.code hclean hclean' hentry
      rw [(hbody p hp).1, (hbody p hp).2]
      exact hbytes.getElem?_eq fun htakes => htakes.elim
    jump_eq := by
      intro j n i target hentry hop1
      obtain ⟨-, -, m, -, -, hformed, -⟩ := formed_of_mem_items (List.mem_of_getElem? hentry)
      obtain ⟨bs, bs', hbytes, -, hbody⟩ := h.code hclean hclean' hentry
      have htwo : 1 < i.length := by
        rw [hformed.length, hop1]
        exact Instruction.two_le_lengthOf _ _
      rw [(hbody 1 htwo).1, (hbody 1 htwo).2]
      exact hbytes.getElem?_eq fun _ => by decide }

/-- **Relocation.**  Two sources that differ in the origin on their second line,
and have none further down, are assembled to the same program at two places, if
both are without errors and there is an item.  Every address behind the origin
moves by the difference, and so do the words of the code that hold one; the rest
of the code, distances and data included, is the same, and so are its length
and the warnings. -/
theorem relocation (id number number' : Text) (a b : Nat) (rest : List Text)
    (hid : IsWord id) (hread : Numeral.read? number = some (a : Int))
    (hread' : Numeral.read? number' = some (b : Int)) (hrest : ∀ text ∈ rest, '\n' ∉ text)
    (horg : ∀ text ∈ rest, leadingDirective? text ≠ some .org)
    (hclean : (ofSource (orgSource id number rest)).report.hasErrors = false)
    (hclean' : (ofSource (orgSource id number' rest)).report.hasErrors = false)
    (hitems : (ofSource (orgSource id number rest)).items ≠ []) :
    (ofSource (orgSource id number rest)).RelocatedBy (b - a)
      (ofSource (orgSource id number' rest)) := by
  have hshifted := shifted_ofSource hid hread hread' hrest horg (clean_of_no_errors hclean).1
    (clean_of_no_errors hclean').1 hitems
  exact hshifted.relocatedBy hclean hclean' hitems

/-- A load and a jump to names further down, a gap and data, at 10 and at 100:
the load has the address of its data, 18 or 108, in its last two bytes. -/
theorem relocation_forward :
    let rest := ["MOV AX, X", "JA L", "OFFSET 2", "X DW 1,?", "L:", "S ENDS"].map String.toList
    let l := ofSource (orgSource "S".toList "10".toList rest)
    let l' := ofSource (orgSource "S".toList "64h".toList rest)
    l.report.hasErrors = false ∧ l'.report.hasErrors = false ∧
    l.items.map Prod.fst = [3, 4, 6] ∧ l.segmentLength = 12 ∧ l'.segmentLength = l.segmentLength ∧
    AddressShifted 90 l.startAddress l'.startAddress ∧
    (∃ x y, wordAt? l.image.body 2 = some x ∧ wordAt? l'.image.body 2 = some y ∧
      AddressShifted 90 x y) ∧
    l'.image.body[5]? = l.image.body[5]? := by
  intro rest l l'
  have hclean : l.report.hasErrors = false := by decide
  have hclean' : l'.report.hasErrors = false := by decide
  have hmoved := relocation "S".toList "10".toList "64h".toList 10 100 rest
    (by decide) rfl rfl (by decide) (by decide) hclean hclean' (by decide)
  refine ⟨hclean, hclean', rfl, rfl, hmoved.segmentLength, hmoved.startAddress, ?_, ?_⟩
  · exact hmoved.body_word 0 _ rfl (Or.inr rfl)
  · exact hmoved.jump_eq 1 _ _ _ rfl rfl

end Assembled

end Layout

end SegmentAssembler
