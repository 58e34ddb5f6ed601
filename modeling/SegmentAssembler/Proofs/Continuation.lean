import SegmentAssembler.Proofs.Declarations
import SegmentAssembler.Proofs.ImageLines
import SegmentAssembler.Proofs.LargerTables

/-!
# Text below a program never disturbs it

The scan goes through a source once and keeps what it has written down.  If
there is more text below a source, the run of the longer source begins with the
run of the shorter one and goes on from the state that it reached:

    lines     1 … m           m + 1 …
    records   of the source   further ones

The line numbers keep the two parts apart, so each table of the source is the
part of the longer table that stands on its lines.  Only encoding looks ahead,
since it comes after the last line; and what it finds further down is names.

* `goesOn_append` — the records of a source come first in every longer source;
* `GoesOn.filterMap_records`, `GoesOn.onLine_findings` — what is read off the
  records is cut back by line numbers, and no line has anything new to report;
* `GoesOn.names_isPrefix` — names are added at the end;
* `append_keeps` — the whole picture.
-/

namespace SegmentAssembler

/-- The report on a segment without a length. -/
def Diagnostic.isSegmentLength : Diagnostic → Bool
  | segmentLength _ => true
  | _ => false

namespace Layout

/-- The second layout begins with the records of the first one, which stand on
the lines of the first one; the further records stand below them. -/
structure GoesOn (l l' : Layout) (further : List Record) : Prop where
  records : l'.records = l.records ++ further
  above : ∀ r ∈ l.records, r.line.number ≤ l.lines.length
  below : ∀ r ∈ further, l.lines.length < r.line.number

/-- Records stand on lines of the source. -/
theorem number_le_of_mem_records {source : Text} {r : Record}
    (hr : r ∈ (ofSource source).records) : r.line.number ≤ (ofSource source).lines.length := by
  obtain ⟨line, hline, hnumber⟩ := exists_line_of_mem_programLines (line_mem_programLines hr)
  rw [← hnumber]
  exact (number_of_mem_splitLines hline).2

/-- **Runs go on.**  Text below a source adds records below those of the source;
it adds none if the source ends the program. -/
theorem goesOn_append (source more : Text) :
    ∃ further, (ofSource source).GoesOn (ofSource (source ++ '\n' :: more)) further := by
  obtain ⟨lines, hlines, hbelow⟩ := splitLines_append source more
  have hrecords := records_ofSource (source ++ '\n' :: more)
  rw [hlines, programLines_append, State.run_append] at hrecords
  refine ⟨_, hrecords, fun r hr => number_le_of_mem_records hr, ?_⟩
  intro r hr
  have hline := List.mem_map_of_mem (f := Record.line) hr
  rw [State.map_line_run] at hline
  split at hline
  · cases hline
  · obtain ⟨line, hmem, hnumber⟩ := exists_line_of_mem_programLines hline
    rw [← hnumber]
    exact hbelow line hmem

namespace GoesOn

variable {l l' : Layout} {further : List Record}

/-! ### Tables -/

/-- What is read off the records line by line, cut back to the upper lines. -/
theorem filterMap_records (h : l.GoesOn l' further) {α : Type} {f : Record → Option (Nat × α)}
    (hf : ∀ r entry, f r = some entry → entry.1 = r.line.number) :
    l.records.filterMap f =
      (l'.records.filterMap f).filter fun entry => decide (entry.1 ≤ l.lines.length) := by
  have habove : ∀ entry ∈ l.records.filterMap f, entry.1 ≤ l.lines.length := by
    intro entry hentry
    obtain ⟨r, hr, hsome⟩ := List.mem_filterMap.mp hentry
    rw [hf r entry hsome]
    exact h.above r hr
  have hbelow : ∀ entry ∈ further.filterMap f, ¬ entry.1 ≤ l.lines.length := by
    intro entry hentry
    obtain ⟨r, hr, hsome⟩ := List.mem_filterMap.mp hentry
    rw [hf r entry hsome]
    exact Nat.not_le_of_lt (h.below r hr)
  rw [h.records, List.filterMap_append, List.filter_append,
    List.filter_eq_self.mpr (by simpa using habove),
    List.filter_eq_nil_iff.mpr (by simpa using hbelow), List.append_nil]

/-- The items of the beginning are those of the whole that stand on its lines. -/
theorem items_eq (h : l.GoesOn l' further) :
    l.items = l'.items.filter fun entry => decide (entry.1 ≤ l.lines.length) := by
  refine h.filterMap_records fun r entry hentry => ?_
  exact (item?_eq_some_iff.mp hentry).1.symm

/-- The addresses of the beginning are those of the whole that stand on its lines. -/
theorem addresses_eq (h : l.GoesOn l' further) :
    l.addresses = l'.addresses.filter fun entry => decide (entry.1 ≤ l.lines.length) :=
  h.filterMap_records fun _ _ => number_of_address?

/-- The upper lines have the items that they had. -/
theorem lookup_items (h : l.GoesOn l' further) (hascending : Ascending l.items)
    (hascending' : Ascending l'.items) {n : Nat} (hn : n ≤ l.lines.length) :
    l'.items.lookup n = l.items.lookup n := by
  ext item
  rw [hascending.lookup_eq_some_iff, hascending'.lookup_eq_some_iff, h.items_eq, List.mem_filter]
  simp [hn]

/-- The first of a kind stays the first. -/
theorem firstAddress_eq (h : l.GoesOn l' further) {p : Effect → Bool} {r : Record}
    (hr : r ∈ l.records) (hp : p r.verdict.effect = true) :
    l'.firstAddress p = l.firstAddress p := by
  cases hfind : l.records.find? fun r => p r.verdict.effect with
  | none => exact absurd hp (List.find?_eq_none.mp hfind r hr)
  | some first =>
      rw [firstAddress, firstAddress, h.records, List.find?_append, hfind, Option.some_or]

/-- **Names are added at the end.** -/
theorem names_isPrefix {source source' : Text}
    (h : (ofSource source).GoesOn (ofSource source') further) :
    (ofSource source).names.entries <+: (ofSource source').names.entries := by
  rw [entries_names, entries_names, h.records, List.filterMap_append]
  exact List.prefix_append _ _

/-! ### The report -/

/-- On the upper lines the scan finds what it found. -/
theorem onLine_findings (h : l.GoesOn l' further) {k : Nat} (hk : k ≤ l.lines.length) :
    onLine k (l'.records.flatMap Record.findings) =
      onLine k (l.records.flatMap Record.findings) := by
  have hfurther : onLine k (further.flatMap Record.findings) = [] := by
    rw [onLine, List.filter_flatMap, List.flatMap_eq_nil_iff]
    intro r hr
    have hbelow := h.below r hr
    exact onLine_findings_of_ne (by omega)
  rw [h.records, List.flatMap_append, onLine_append, hfurther, List.append_nil]

end GoesOn

/-- The report of the scan on a line: what its record says, then a missing
length of the segment. -/
theorem on_scan (l : Layout) (severity : Severity) (k : Nat) :
    (Report.ofFindings l.findings).on severity k =
      (Report.ofFindings (l.records.flatMap Record.findings)).on severity k ++
        if severity = .error ∧ l.lastLine = k ∧ l.extent < 0 then
          [Diagnostic.segmentLength l.extent] else [] := by
  rw [on_ofFindings, on_ofFindings, findings, onLine_append, Report.select, List.filterMap_append,
    List.map_append, ← select_onLine_lengthFindings]
  rfl

/-- Apart from the length of the segment, the errors of the scan are those of
the records. -/
theorem filter_on_scan (l : Layout) (k : Nat) :
    ((Report.ofFindings l.findings).on .error k).filter (fun d => !d.isSegmentLength) =
      ((Report.ofFindings (l.records.flatMap Record.findings)).on .error k).filter
        fun d => !d.isSegmentLength := by
  rw [on_scan, List.filter_append]
  split
  · exact List.append_nil _
  · exact List.append_nil _

/-- The warnings on a line are those of its record. -/
theorem on_warning_report (l : Layout) (k : Nat) :
    l.report.on .warning k =
      (Report.ofFindings (l.records.flatMap Record.findings)).on .warning k := by
  rw [Report.on, Report.on, warnings_report]
  rfl

/-! ### The whole picture -/

/-- What a layout keeps when there is more text below its source. -/
structure KeptIn (l l' : Layout) : Prop where
  /-- The items are those of the longer source on the lines of the shorter one. -/
  items : l.items = l'.items.filter fun entry => decide (entry.1 ≤ l.lines.length)
  addresses : l.addresses = l'.addresses.filter fun entry => decide (entry.1 ≤ l.lines.length)
  names : l.names.entries <+: l'.names.entries
  startAddress : l.items ≠ [] → l'.startAddress = l.startAddress
  entryPoint : ∀ n i, (n, .instruction i) ∈ l.items → l'.entryPoint = l.entryPoint
  warnings : ∀ k ≤ l.lines.length, l'.report.on .warning k = l.report.on .warning k
  /-- The scan reports the same, save for the length of the segment. -/
  scan_errors : ∀ k ≤ l.lines.length,
    ((Report.ofFindings l'.findings).on .error k).filter (fun d => !d.isSegmentLength) =
      ((Report.ofFindings l.findings).on .error k).filter fun d => !d.isSegmentLength
  /-- What is encoded is encoded in the same way. -/
  hex : ∀ k text, l.image.hex.lookup k = some text → l'.image.hex.lookup k = some text
  /-- What is not encoded has the same error, unless a name was missing. -/
  encoding_errors : ∀ k ≤ l.lines.length,
    (Report.ofFindings l'.image.findings).on .error k =
        (Report.ofFindings l.image.findings).on .error k ∨
      ∃ d, d.isUndeclared = true ∧ (Report.ofFindings l.image.findings).on .error k = [d]

/-- **Text below a program never disturbs it.**  Of any source with any text
below it: the items and addresses on the lines of the source, its names, where
it starts and where it is entered, its warnings and the errors of its scan are
what they are without the text, save that the length of the segment is reported
at the end.  Encoded lines keep their code, and of the other lines only those
that miss a name can fare differently. -/
theorem append_keeps (source more : Text) :
    (ofSource source).KeptIn (ofSource (source ++ '\n' :: more)) := by
  obtain ⟨further, h⟩ := goesOn_append source more
  have hextends := SymbolTable.extends_of_isPrefix h.names_isPrefix
  have hlookup := fun n => h.lookup_items (n := n) (pairwise_items source) (pairwise_items _)
  exact {
    items := h.items_eq
    addresses := h.addresses_eq
    names := h.names_isPrefix
    startAddress := by
      intro hitems
      obtain ⟨⟨n, item⟩, hitem⟩ := List.exists_mem_of_ne_nil _ hitems
      obtain ⟨r, hr, -, heffect⟩ := mem_items_iff.mp hitem
      exact h.firstAddress_eq hr (by rw [heffect]; rfl)
    entryPoint := by
      intro n i hitem
      obtain ⟨r, hr, -, heffect⟩ := mem_items_iff.mp hitem
      rw [entryPoint_eq, entryPoint_eq]
      exact h.firstAddress_eq hr (Effect.isCollected_iff.mpr ⟨i, heffect⟩)
    warnings := by
      intro k hk
      rw [on_warning_report, on_warning_report, on_ofFindings, on_ofFindings, h.onLine_findings hk]
    scan_errors := by
      intro k hk
      rw [filter_on_scan, filter_on_scan, on_ofFindings, on_ofFindings, h.onLine_findings hk]
    hex := by
      intro k text htext
      rw [image, Image.lookup_hex (pairwise_items source), Option.bind_eq_some_iff] at htext
      obtain ⟨item, hitem, htext⟩ := htext
      obtain ⟨e, hcode, rfl⟩ := Item.hex?_eq_some_iff.mp htext
      have hmem := (Ascending.lookup_eq_some_iff (pairwise_items source)).mp hitem
      rw [h.items_eq, List.mem_filter, decide_eq_true_eq] at hmem
      rw [image, Image.lookup_hex (pairwise_items _), hlookup k hmem.2, hitem, Option.bind_some]
      exact Item.hex?_eq_some_iff.mpr ⟨e, (item.encode_stands hextends).ok hcode, rfl⟩
    encoding_errors := by
      intro k hk
      rw [image, image, Image.on_findings (pairwise_items source),
        Image.on_findings (pairwise_items _), hlookup k hk]
      cases (ofSource source).items.lookup k with
      | none => exact Or.inl rfl
      | some item =>
          rcases item.encode_stands hextends with heq | ⟨d, hcode, hd⟩
          · left
            rw [Option.bind_some, Option.bind_some, Item.fault?, Item.fault?, heq]
          · right
            refine ⟨d, hd, ?_⟩
            rw [Option.bind_some, Item.fault?_eq_some_iff.mpr hcode]
            rfl }

/-- A jump to a label that only the text below declares: the jump is encoded
then, and the multiplication above it stays what it was. -/
theorem append_keeps_declared_below :
    let source := "S SEGMENT\nMUL AX\nJA L".toList
    let l := ofSource source
    let l' := ofSource (source ++ '\n' :: "L:\nZ DW\nS ENDS".toList)
    l.items = l'.items.filter (fun entry => decide (entry.1 ≤ 3)) ∧
    l.names.entries <+: l'.names.entries ∧ l'.entryPoint = l.entryPoint ∧
    l.image.hex.lookup 2 = some (.single "F7 E0".toList) ∧
    l'.image.hex.lookup 2 = some (.single "F7 E0".toList) ∧
    (Report.ofFindings l.image.findings).on .error 3 = [.undeclaredTarget "L".toList] ∧
    (Report.ofFindings l'.image.findings).on .error 3 = [] := by
  intro source l l'
  have hkept : l.KeptIn l' := append_keeps source "L:\nZ DW\nS ENDS".toList
  exact ⟨hkept.items, hkept.names, hkept.entryPoint 2 _ (List.mem_of_getElem? (i := 0) rfl), rfl,
    hkept.hex 2 _ rfl, rfl, rfl⟩

end Layout

end SegmentAssembler
