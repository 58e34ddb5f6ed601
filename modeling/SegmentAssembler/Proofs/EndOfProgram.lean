import SegmentAssembler.Assembly
import SegmentAssembler.Proofs.Continuation

/-!
# Nothing after the end matters

The first line that begins with END, in letters of either case, ends the
program.  The scan stops there, and so does everything that works on the full
list of lines: the listing shows the lines up to that one, and a segment
without a length is reported on it.

    lines    1 …  k       k + 1 …
             END on k     never looked at

* `ofSource_append_of_end` — text below the end adds lines to the layout and
  nothing else;
* `assembly_of_further_lines` — lines below the end leave no trace in the
  assembly;
* `within_of_records` — what is reported or tabulated stands on lines of the
  program;
* `nothing_after_end` — so a source may be cut off after its end, and anything
  put there instead.
-/

namespace SegmentAssembler

/-- The first lines of a source. -/
def firstLines (k : Nat) (source : Text) : Text := joinLines ((source.splitOn '\n').take k)

/-! ### The lines up to the end -/

/-- The first lines of a source are its lines up to there. -/
theorem splitLines_firstLines {k : Nat} (hk : 0 < k) (source : Text) :
    splitLines (firstLines k source) = (splitLines source).take k := by
  have hne : (source.splitOn '\n').take k ≠ [] := by
    rw [ne_eq, List.take_eq_nil_iff, not_or]
    exact ⟨Nat.ne_of_gt hk, List.splitOn_ne_nil '\n' source⟩
  have hlines : ∀ text ∈ (source.splitOn '\n').take k, '\n' ∉ text := fun text htext =>
    newline_not_mem_of_mem_splitOn (List.mem_of_mem_take htext)
  rw [firstLines, splitLines_joinLines hne hlines, splitLines]
  apply List.ext_getElem?
  intro i
  simp only [List.getElem?_map, List.getElem?_zipIdx, List.getElem?_take]
  split <;> rfl

/-- The line that ends a program, among the lines of the source. -/
theorem exists_line_of_endLine {lines : List Line} {k : Nat} (h : endLine lines = some k) :
    ∃ line ∈ lines, line.number = k := by
  obtain ⟨code, hfind, rfl⟩ := Option.map_eq_some_iff.mp h
  obtain ⟨line, hline, hwords⟩ := List.mem_filterMap.mp (List.mem_of_find?_eq_some hfind)
  exact ⟨line, hline, (Line.number_of_code? hwords).symm⟩

/-- A source that is cut off after its end has its end there, on the last line. -/
theorem endLine_firstLines {source : Text} {k : Nat}
    (h : endLine (splitLines source) = some k) :
    endLine (splitLines (firstLines k source)) = some k ∧
      (splitLines (firstLines k source)).length = k := by
  obtain ⟨line, hline, hnumber⟩ := exists_line_of_endLine h
  obtain ⟨hpos, hle⟩ := number_of_mem_splitLines hline
  rw [hnumber] at hpos hle
  rw [splitLines_firstLines hpos, List.length_take, Nat.min_eq_left hle]
  refine ⟨?_, rfl⟩
  rw [← List.take_append_drop k (splitLines source), endLine_append] at h
  cases hfirst : endLine ((splitLines source).take k) with
  | some j =>
      rw [hfirst, Option.some_or] at h
      exact h
  | none =>
      -- then the end would be found on a line further down
      rw [hfirst, Option.none_or] at h
      obtain ⟨below, hbelow, hk⟩ := exists_line_of_endLine h
      obtain ⟨i, hi⟩ := List.getElem?_of_mem hbelow
      rw [List.getElem?_drop] at hi
      have hgt := number_of_getElem?_splitLines hi
      omega

/-- A blank source has no code. -/
theorem codeLines_of_isAllBlank {source : Text} (h : Text.isAllBlank source = true) :
    codeLines (splitLines source) = [] := by
  rw [codeLines, List.filterMap_eq_nil_iff]
  intro line hline
  obtain ⟨⟨text, number⟩, hentry, rfl⟩ := List.mem_map.mp hline
  have hblank : ∀ c ∈ text, Text.isBlank c = true := by
    intro c hc
    have htext : text ∈ source.splitOn '\n' := List.fst_mem_of_mem_zipIdx hentry
    exact List.all_eq_true.mp h c (mem_of_mem_splitOn htext hc).2
  have htrim : Text.trim text = [] := by
    rw [Text.trim, List.dropWhile_eq_nil_iff.mpr hblank]
    rfl
  simp only [htrim]
  exact Line.code?_empty number

/-- A source that has an end is assembled. -/
theorem assemble?_of_endLine {source : Text} {k : Nat}
    (h : endLine (splitLines source) = some k) :
    assemble? source = some (.ofLayout (.ofSource source)) := by
  have hblank : ¬ Text.isAllBlank source = true := by
    intro hblank
    rw [endLine, codeLines_of_isAllBlank hblank] at h
    cases h
  rw [assemble?, if_neg hblank]

/-! ### Lines below the end -/

namespace Listing

variable {l : Listing} {line : Line}

/-- The lines that the listing shows are those up to the end. -/
theorem shownLines_append (hline : line ∈ l.lines)
    (hend : l.endLine = some line.number) (further : List Line) :
    shownLines { l with lines := l.lines ++ further } = l.shownLines := by
  cases hindex : l.lines.findIdx? fun line => some line.number == l.endLine with
  | none =>
      have hnot := List.findIdx?_eq_none_iff.mp hindex line hline
      simp [hend] at hnot
  | some index =>
      obtain ⟨hlt, -⟩ := List.findIdx?_eq_some_iff_getElem.mp hindex
      simp only [shownLines, List.findIdx?_append, hindex, Option.some_or]
      exact List.take_append_of_le_length hlt

/-- Lines below the end of the program do not show in the listing. -/
theorem text_append (hline : line ∈ l.lines) (hend : l.endLine = some line.number)
    (further : List Line) : text { l with lines := l.lines ++ further } = l.text := by
  rw [text, sourceRows, shownLines_append hline hend]
  rfl

end Listing

namespace Layout

/-- The line that ends the program is its last one. -/
theorem lastLine_of_endLine {l : Layout} {k : Nat} (h : l.endLine = some k) : l.lastLine = k := by
  rw [lastLine, h, Option.getD_some]

/-- **Lines below the end leave no trace in the assembly.** -/
theorem assembly_of_further_lines {l : Layout} {line : Line} (hline : line ∈ l.lines)
    (hend : l.endLine = some line.number) (further : List Line) :
    Assembly.ofLayout { l with lines := l.lines ++ further } = .ofLayout l := by
  -- the count of lines is asked for only if there is no end
  have hlast : lastLine { l with lines := l.lines ++ further } = l.lastLine := by
    rw [lastLine_of_endLine (l := l) hend]
    exact lastLine_of_endLine hend
  have hlength : lengthFindings { l with lines := l.lines ++ further } = l.lengthFindings := by
    rw [lengthFindings, hlast]
    rfl
  have hreport : report { l with lines := l.lines ++ further } = l.report := by
    simp only [report, findings, hlength]
    rfl
  have hevents : events { l with lines := l.lines ++ further } = l.events := by
    simp only [events, hlength]
    rfl
  have hlisting : listing { l with lines := l.lines ++ further } =
      { l.listing with lines := l.listing.lines ++ further } := by
    simp only [listing, hreport]
    rfl
  rw [Assembly.ofLayout, hlisting, Listing.text_append (l := l.listing) hline hend, hreport,
    hevents]
  rfl

variable {source : Text} {k : Nat}

/-- **Text below the end adds lines to the layout** and nothing else. -/
theorem ofSource_append_of_end (h : SegmentAssembler.endLine (splitLines source) = some k)
    (more : Text) :
    ∃ further, ofSource (source ++ '\n' :: more) =
      { ofSource source with lines := (ofSource source).lines ++ further } := by
  obtain ⟨further, hlines, -⟩ := splitLines_append source more
  refine ⟨further, ?_⟩
  rw [ofSource, hlines, endLine_append, programLines_append, h, Option.some_or,
    Option.isSome_some, if_pos rfl, List.append_nil]
  rw [ofSource, h]

/-! ### No line above the end -/

/-- Everything that a layout reports or tabulates stands on lines up to the
given one. -/
structure Within (l : Layout) (k : Nat) : Prop where
  errors : ∀ entry ∈ l.report.errors, entry.1 ≤ k
  warnings : ∀ entry ∈ l.report.warnings, entry.1 ≤ k
  items : ∀ entry ∈ l.items, entry.1 ≤ k
  addresses : ∀ entry ∈ l.addresses, entry.1 ≤ k
  hex : ∀ entry ∈ l.image.hex, entry.1 ≤ k

/-- What is reported was found. -/
theorem number_of_mem_select {severity : Severity} {findings : List (Nat × Finding)}
    (h : ∀ found ∈ findings, found.1 ≤ k) :
    ∀ entry ∈ Report.select severity findings, entry.1 ≤ k := by
  intro entry hentry
  obtain ⟨found, hfound, hselect⟩ := List.mem_filterMap.mp hentry
  simp only [Option.ite_none_right_eq_some, Option.some.injEq] at hselect
  rw [← hselect.2]
  exact h found hfound

/-- **What is reported or tabulated stands on the lines of the records**, or on
the last line of the program. -/
theorem within_of_records {l : Layout} (hrecords : ∀ r ∈ l.records, r.line.number ≤ k)
    (hlast : l.lastLine ≤ k) : l.Within k := by
  have hitems : ∀ entry ∈ l.items, entry.1 ≤ k := by
    rintro ⟨n, item⟩ hentry
    obtain ⟨r, hr, rfl, -⟩ := mem_items_iff.mp hentry
    exact hrecords r hr
  have hfindings : ∀ found ∈ l.findings ++ l.image.findings, found.1 ≤ k := by
    intro found hfound
    rcases List.mem_append.mp hfound with hscan | hencoding
    · rcases List.mem_append.mp hscan with hrecord | hlength
      · obtain ⟨r, hr, hmem⟩ := List.mem_flatMap.mp hrecord
        obtain ⟨f, -, rfl⟩ := List.mem_map.mp hmem
        exact hrecords r hr
      · rw [lengthFindings] at hlength
        split at hlength
        · rw [List.mem_singleton.mp hlength]
          exact hlast
        · cases hlength
    · obtain ⟨entry, hentry, d, rfl, -⟩ := Image.exists_of_mem_findings hencoding
      exact hitems entry hentry
  exact {
    errors := number_of_mem_select hfindings
    warnings := number_of_mem_select hfindings
    items := hitems
    addresses := by
      intro entry hentry
      obtain ⟨r, hr, haddress⟩ := List.mem_filterMap.mp hentry
      rw [number_of_address? haddress]
      exact hrecords r hr
    hex := by
      intro shown hshown
      rw [image, Image.hex_ofItems] at hshown
      obtain ⟨entry, hmem, hmap⟩ := List.mem_filterMap.mp hshown
      obtain ⟨text, -, rfl⟩ := Option.map_eq_some_iff.mp hmap
      exact hitems entry hmem }

end Layout

/-- **Nothing after the end matters.**  If the first END of a source is on line
`k`, then the source cut off after line `k` and the same with any text below are
assembled, to the same listing, the same object record and the same report, and
neither has anything to show for a line above `k`. -/
theorem nothing_after_end (source more : Text) (k : Nat)
    (hend : endLine (splitLines source) = some k) :
    let upper := firstLines k source
    let longer := upper ++ '\n' :: more
    (∃ assembly, assemble? upper = some assembly ∧ assemble? longer = some assembly) ∧
      (Layout.ofSource upper).Within k ∧ (Layout.ofSource longer).Within k := by
  intro upper longer
  obtain ⟨hupper, hcount⟩ := endLine_firstLines hend
  have hlonger : endLine (splitLines longer) = some k := by
    obtain ⟨further, hlines, -⟩ := splitLines_append upper more
    rw [hlines, endLine_append, hupper, Option.some_or]
  obtain ⟨further, hlayout⟩ := Layout.ofSource_append_of_end hupper more
  refine ⟨⟨_, assemble?_of_endLine hupper, ?_⟩, ?_, ?_⟩
  · obtain ⟨line, hline, hnumber⟩ := exists_line_of_endLine hupper
    have hlast : (Layout.ofSource upper).endLine = some line.number := by
      rw [hnumber]
      exact hupper
    rw [assemble?_of_endLine hlonger, hlayout, Layout.assembly_of_further_lines hline hlast]
  · refine Layout.within_of_records (fun r hr => ?_) ?_
    · exact Nat.le_trans (Layout.number_le_of_mem_records hr) (Nat.le_of_eq hcount)
    · exact Nat.le_of_eq (Layout.lastLine_of_endLine hupper)
  · refine Layout.within_of_records (fun r hr => ?_) ?_
    · rw [hlayout] at hr
      exact Nat.le_trans (Layout.number_le_of_mem_records hr) (Nat.le_of_eq hcount)
    · exact Nat.le_of_eq (Layout.lastLine_of_endLine hlonger)

/-- The end in small letters and with a word behind it, inside the segment, of
a program whose counter ended up below its first item: the missing length is
reported on the line of the end, whatever stands below. -/
theorem nothing_after_end_inside :
    let source := "S SEGMENT\nORG 10\nMUL AX\nORG 0\nend now\nL:\nEND".toList
    let upper := firstLines 5 source
    let longer := upper ++ '\n' :: "X DW 1\n\nS ENDS".toList
    endLine (splitLines source) = some 5 ∧
    (∃ assembly, assemble? upper = some assembly ∧ assemble? longer = some assembly) ∧
    (Layout.ofSource longer).report.errors = [(5, .segmentLength (-10))] ∧
    (Layout.ofSource longer).items.map Prod.fst = [3] ∧
    (∀ entry ∈ (Layout.ofSource longer).report.errors, entry.1 ≤ 5) := by
  intro source upper longer
  have hend : endLine (splitLines source) = some 5 := rfl
  obtain ⟨hsame, -, hwithin⟩ := nothing_after_end source "X DW 1\n\nS ENDS".toList 5 hend
  exact ⟨hend, hsame, by decide, by decide, hwithin.errors⟩

end SegmentAssembler
