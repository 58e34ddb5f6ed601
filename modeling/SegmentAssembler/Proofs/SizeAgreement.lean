import SegmentAssembler.Image
import SegmentAssembler.Proofs.InstructionForm
import SegmentAssembler.Proofs.RunRecords

/-!
# Sizes: what the scan reserves is what the encoder fills

The scan advances the counter by the size of an item before anything is
encoded.  For an instruction that size comes from the kinds of its operands,
for a definition from the number of its values; the bytes come later and from
other rules.

* `length_of_encode` — an item that is encoded has as many bytes as its size;
* `length_body` — so the code of a program is as long as its items together;
* `encoded_lengths_agree` — the account of a whole program: opcode, second byte
  and tail fill the length of an instruction, the cells of a definition fill
  its size, and the code is as long as the way that the counter made on the
  lines with items.
-/

namespace SegmentAssembler

/-! ### The effect behind an item -/

/-- An instruction comes from a line that was collected. -/
theorem Effect.eq_collected_of_item? {e : Effect} {i : Instruction}
    (h : e.item? = some (.instruction i)) : ∃ m, e = .collected m i := by
  cases e with
  | collected m j =>
      obtain rfl : j = i := by simpa [item?] using h
      exact ⟨m, rfl⟩
  | _ => simp [item?] at h

/-- Data comes from a line that defines it. -/
theorem Effect.eq_defined_of_item? {e : Effect} {d : Definition} (h : e.item? = some (.data d)) :
    ∃ id type values, e = .defined id type values ∧ d = .ofLine id type values := by
  cases e with
  | defined id type values =>
      obtain rfl : Definition.ofLine id type values = d := by simpa [item?] using h
      exact ⟨id, type, values, rfl, rfl⟩
  | _ => simp [item?] at h

/-- The line contributes an instruction. -/
def Effect.isCollected : Effect → Bool
  | collected _ _ => true
  | _ => false

/-- A line is collected exactly if its item is an instruction. -/
theorem Effect.isCollected_iff {e : Effect} :
    e.isCollected = true ↔ ∃ i, e.item? = some (.instruction i) := by
  cases e <;> simp [isCollected, item?]

theorem Layout.entryPoint_eq (l : Layout) :
    l.entryPoint = l.firstAddress Effect.isCollected := rfl

/-- An instruction of a program is formed, and its own record of the address
is the counter that its line found. -/
theorem Layout.formed_of_mem_items {source : Text} {n : Nat} {i : Instruction}
    (h : (n, .instruction i) ∈ (ofSource source).items) :
    ∃ r ∈ (ofSource source).records, ∃ m, r.line.number = n ∧
      r.verdict.effect = .collected m i ∧ i.Formed m ∧ i.address = r.before.counter := by
  obtain ⟨r, hr, hn, hitem⟩ := mem_items_iff.mp h
  obtain ⟨m, heffect⟩ := Effect.eq_collected_of_item? hitem
  have hadmits := admits_of_mem_records hr
  rw [heffect] at hadmits
  obtain ⟨hformed, haddress⟩ := hadmits.formed
  exact ⟨r, hr, m, hn, heffect, hformed, haddress⟩

/-! ### The code of a sequence of items -/

namespace Image

variable {names : SymbolTable}

/-- The code of more items is put behind the code so far. -/
theorem body_ofItems_append (items more : List (Nat × Item)) :
    (ofItems names (items ++ more)).body =
      (ofItems names items).body ++ (ofItems names more).body := by
  simp [ofItems, body, encoded]

/-- The code begins with the bytes of the first item. -/
theorem body_ofItems_cons {entry : Nat × Item} {e : Encoded}
    (h : entry.2.encode names = .ok e) (rest : List (Nat × Item)) :
    (ofItems names (entry :: rest)).body = e.bytes ++ (ofItems names rest).body := by
  simp [ofItems, body, encoded, h]

/-- What is found in encoding is an error, on the line of an item that fails. -/
theorem exists_of_mem_findings {items : List (Nat × Item)} {found : Nat × Finding}
    (h : found ∈ (ofItems names items).findings) :
    ∃ entry ∈ items, ∃ d, found = (entry.1, d.asError) ∧ entry.2.encode names = .error d := by
  simp only [ofItems, findings, List.mem_filterMap, List.mem_map, exists_exists_and_eq_and] at h
  obtain ⟨entry, hentry, hfound⟩ := h
  cases hcode : entry.2.encode names with
  | ok e => simp [hcode] at hfound
  | error d => exact ⟨entry, hentry, d, by simpa [hcode] using hfound.symm, hcode⟩

/-- Items that are encoded at their sizes make code of their total size. -/
theorem length_body_ofItems {items : List (Nat × Item)}
    (h : ∀ entry ∈ items, ∃ e, entry.2.encode names = .ok e ∧ e.bytes.length = entry.2.size) :
    (ofItems names items).body.length = (items.map fun entry => entry.2.size).sum := by
  induction items with
  | nil => rfl
  | cons entry rest ih =>
      obtain ⟨e, hcode, hlength⟩ := h entry List.mem_cons_self
      have hrest := ih fun other hother => h other (List.mem_cons_of_mem _ hother)
      rw [body_ofItems_cons hcode, List.length_append, hlength, hrest, List.map_cons,
        List.sum_cons]

end Image

namespace Layout

/-- **Bytes number the size.**  An item that is encoded fills exactly the room
that the scan left for it. -/
theorem length_of_encode {source : Text} {entry : Nat × Item} {e : Encoded}
    (hentry : entry ∈ (ofSource source).items)
    (hcode : entry.2.encode (ofSource source).names = .ok e) :
    e.bytes.length = entry.2.size := by
  obtain ⟨n, item⟩ := entry
  cases item with
  | instruction i =>
      obtain ⟨r, -, m, -, -, hformed, -⟩ := formed_of_mem_items hentry
      obtain ⟨op1, p, q, -, -, -, -, hlength, hbytes⟩ := hformed.exists_composed hcode
      rw [hbytes, hlength]
      rfl
  | data d =>
      cases hcode
      exact d.length_bytes

/-- Without errors every item is encoded. -/
theorem exists_encode_of_no_errors {l : Layout} (h : l.report.hasErrors = false) :
    ∀ entry ∈ l.items, ∃ e, entry.2.encode l.names = .ok e := by
  intro entry hentry
  cases hcode : entry.2.encode l.names with
  | ok e => exact ⟨e, rfl⟩
  | error d =>
      have hfound : (entry.1, d.asError) ∈ l.image.findings := by
        refine List.mem_filterMap.mpr ⟨(entry.1, entry.2.encode l.names), ?_, by simp [hcode]⟩
        exact List.mem_map.mpr ⟨entry, hentry, rfl⟩
      have hnone := Report.hasErrors_ofFindings_eq_false_iff.mp h
        (entry.1, d.asError) (List.mem_append_right _ hfound)
      exact absurd rfl hnone

/-- The code is as long as the items together. -/
theorem length_body {source : Text}
    (hall : ∀ entry ∈ (ofSource source).items,
      ∃ e, entry.2.encode (ofSource source).names = .ok e) :
    (ofSource source).image.body.length =
      ((ofSource source).items.map fun entry => entry.2.size).sum := by
  refine Image.length_body_ofItems fun entry hentry => ?_
  obtain ⟨e, hcode⟩ := hall entry hentry
  exact ⟨e, hcode, length_of_encode hentry hcode⟩

/-- The sizes of items are the shifts of the lines that contribute them. -/
private theorem sum_sizes_eq_sum_shifts {s : State} {lines : List CodeLine}
    {records : List Record} (hsub : ∀ r ∈ records, r ∈ s.run lines) :
    (((records.filterMap Record.item?).map fun entry => entry.2.size).sum : Nat) =
      ((records.filter fun r => r.item?.isSome).map Record.shift).sum := by
  induction records with
  | nil => rfl
  | cons r rest ih =>
      have hrest := ih fun other hother => hsub other (List.mem_cons_of_mem _ hother)
      cases hitem : r.item? with
      | none =>
          rw [List.filterMap_cons_none hitem, List.filter_cons_of_neg (by simp [hitem])]
          exact hrest
      | some entry =>
          have hshift := State.shift_eq_size (hsub r List.mem_cons_self)
            (item?_eq_some_iff.mp hitem).2
          rw [List.filterMap_cons_some hitem, List.filter_cons_of_pos (by simp [hitem])]
          simp only [List.map_cons, List.sum_cons, hshift]
          omega

/-- **The two passes agree on sizes.**  Of any source: an encoded instruction
consists of its opcode, its second byte and its tail, which number exactly its
length; a definition is encoded in the bytes of its cells, as many as the
counter advanced on its line; and if every item is encoded, the code is as long
as the counter advanced on the lines with items. -/
theorem encoded_lengths_agree (source : Text) :
    let l := ofSource source
    (∀ n i, (n, .instruction i) ∈ l.items → ∀ e, i.encode l.names = .ok e →
      ∃ op1 p q, i.op1 = some op1 ∧ i.placeFirst l.names op1 = .ok p ∧
        i.placeSecond l.names p = .ok q ∧
        1 + 1 + ((q.tail.map wordBytes).getD []).length = i.length ∧
        Instruction.resize i.length (Instruction.join i.template q) =
          Instruction.join i.template q ∧
        e.bytes = Instruction.join i.template q ∧ e.bytes.length = i.length) ∧
    (∀ n d, (n, .data d) ∈ l.items →
      d.encode.bytes.length = d.type.width * d.values.length ∧
      ∃ r ∈ l.records, r.line.number = n ∧
        r.next.counter = r.before.counter + d.encode.bytes.length) ∧
    ((∀ entry ∈ l.items, ∃ e, entry.2.encode l.names = .ok e) →
      (l.image.body.length : Int) =
        ((l.records.filter fun r => r.item?.isSome).map Record.shift).sum) := by
  intro l
  refine ⟨?_, ?_, ?_⟩
  · intro n i hi e hcode
    obtain ⟨r, -, m, -, -, hformed, -⟩ := formed_of_mem_items hi
    obtain ⟨op1, p, q, hop1, hp, hq, -, hlength, hbytes⟩ := hformed.exists_composed hcode
    refine ⟨op1, p, q, hop1, hp, hq, ?_, Instruction.resize_of_length_eq hlength, hbytes, ?_⟩
    · rw [← hlength, Instruction.join, List.length_cons, List.length_cons]
      omega
    · rw [hbytes, hlength]
  · intro n d hd
    have hsize : d.encode.bytes.length = d.size := d.length_bytes
    refine ⟨hsize, ?_⟩
    obtain ⟨r, hr, hn, hitem⟩ := mem_items_iff.mp hd
    refine ⟨r, hr, hn, ?_⟩
    have hshift : r.shift = d.size := State.shift_eq_size hr hitem
    rw [hsize]
    unfold Record.shift at hshift
    omega
  · intro hall
    rw [length_body hall]
    exact sum_sizes_eq_sum_shifts fun r hr => hr

/-- A load and a jump to names further down, and data: every item is encoded,
in ten bytes for a way of ten. -/
theorem encoded_lengths_agree_forward :
    let l := ofSource "S SEGMENT\nMOV AX, X\nJA L\nX DW 1,2\nL:\nS ENDS".toList
    (∀ entry ∈ l.items, ∃ e, entry.2.encode l.names = .ok e) ∧
    l.items.map (fun entry => entry.2.size) = [4, 2, 4] ∧ l.image.body.length = 10 ∧
    (l.image.body.length : Int) =
      ((l.records.filter fun r => r.item?.isSome).map Record.shift).sum := by
  intro l
  have hall := exists_encode_of_no_errors (l := l) (by decide)
  exact ⟨hall, rfl, rfl, (encoded_lengths_agree _).2.2 hall⟩

end Layout

end SegmentAssembler
