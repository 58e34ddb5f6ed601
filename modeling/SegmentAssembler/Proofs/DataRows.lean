import Mathlib.Algebra.Order.Floor.Div
import SegmentAssembler.Proofs.Continuation
import SegmentAssembler.Proofs.EncodingFaults
import SegmentAssembler.Proofs.ListingRows
import SegmentAssembler.Proofs.StatementForms

/-!
# Data from its line to the listing

The tokens of a definition become values, one each, and the values become
bytes in the object code and cells in the rows of the listing:

    token     1       0FFh    ?       70000   -1
    value     1       255     absent  absent  -1
    bytes     01 00   FF 00   00 00   00 00   FF FF
    row 0     0001 00FF ???? ???? +
    row 1     FFFF

Only the fourth token is an error.  Row 1 is shown at the address of the fifth
value, which is eight bytes after that of the line.

* `definedValue_eq` — what a token gives, value and complaint;
* `on_records` — the report on a line says what was found on it;
* `littleEndian_cellBytes`, `showsValue_cellText` — what a value becomes;
* `inRows_hex` — how the cells are divided into rows;
* `listedAt` — where the rows stand in the listing, and at which address.
-/

namespace SegmentAssembler

/-! ### Values -/

namespace DataType

/-- The value of a token: the number that it spells, if the type accepts it. -/
def valueOf? (t : DataType) (token : Text) : Option Int :=
  (Numeral.read? token).filter t.contains

/-- The token has no value, and does not say so itself. -/
def isFaulty (t : DataType) (token : Text) : Bool :=
  (t.valueOf? token).isNone && token != ['?']

/-- What is wrong with a faulty token: it spells no number, or one out of range. -/
def complaint (t : DataType) (token : Text) : Diagnostic :=
  match Numeral.read? token with
  | none => .badExpression token
  | some v => .outOfRange v t

end DataType

/-- **What a token gives.** -/
theorem definedValue_eq (type : DataType) (token : Text) :
    definedValue type token =
      if type.isFaulty token then .error (type.complaint token) else .ok (type.valueOf? token) := by
  have hopen : Numeral.read? ['?'] = none := by decide
  unfold definedValue DataType.isFaulty DataType.complaint DataType.valueOf?
  by_cases hmark : token = ['?']
  · simp [hmark, hopen]
  · rw [if_neg hmark]
    cases Numeral.read? token with
    | none => simp [hmark]
    | some v => cases hrange : type.contains v <;> simp [hmark, hrange, Option.filter]

/-- Tokens become values one by one. -/
theorem definedValues_of_ne_nil (type : DataType) {tokens : List Text} (h : tokens ≠ []) :
    definedValues type tokens = tokens.map type.valueOf? := by
  obtain ⟨first, rest, rfl⟩ := List.exists_cons_of_ne_nil h
  refine List.map_congr_left fun token _ => ?_
  rw [definedValue_eq]
  cases hfaulty : type.isFaulty token with
  | false => rfl
  | true =>
      simp only [DataType.isFaulty, Bool.and_eq_true, Option.isNone_iff_eq_none] at hfaulty
      rw [hfaulty.1]
      rfl

/-- There is one complaint for each faulty token, and no other. -/
theorem valueFindings_of_ne_nil (type : DataType) {tokens : List Text} (h : tokens ≠ []) :
    valueFindings type tokens =
      (tokens.filter type.isFaulty).map fun token => (type.complaint token).asError := by
  obtain ⟨first, rest, rfl⟩ := List.exists_cons_of_ne_nil h
  rw [valueFindings, ← List.filterMap_eq_map, List.filterMap_filter]
  · refine List.filterMap_congr fun token _ => ?_
    rw [definedValue_eq]
    cases type.isFaulty token <;> simp
  · simp

/-! ### The line of a definition -/

/-- The verdict on a definition that is accepted. -/
theorem State.judge_of_define {s : State} {line : CodeLine} {id : Text} {type : DataType}
    {tokens : List Text} (hphase : s.phase = .opened)
    (hwords : Statement.ofWords line.head line.rest = .define id type tokens)
    (hname : isName id = true) (hfree : s.names.contains id = false)
    (htop : s.counter + type.width * (definedValues type tokens).length ≤ topAddress) :
    s.judge line = ⟨valueFindings type tokens, .defined id type (definedValues type tokens)⟩ := by
  simp [judge, hphase, hwords, judgeStatement, inside, isOpen, judgeDefinition, hname, hfree, htop,
    Verdict.after, Verdict.accept]

namespace Layout

variable {source : Text} {n : Nat} {d : Definition}

/-- What is found on the line of a record is what its verdict says. -/
theorem on_records {r : Record} (hr : r ∈ (ofSource source).records) (severity : Severity) :
    (Report.ofFindings ((ofSource source).records.flatMap Record.findings)).on severity
        r.line.number =
      (Report.select severity r.findings).map Prod.snd := by
  obtain ⟨front, back, hsplit⟩ := List.append_of_mem hr
  have hsorted := pairwise_line_records source
  rw [hsplit, List.pairwise_append, List.pairwise_cons] at hsorted
  obtain ⟨-, ⟨hback, -⟩, hfront⟩ := hsorted
  have hnone : ∀ records : List Record, (∀ r' ∈ records, r'.line.number ≠ r.line.number) →
      onLine r.line.number (records.flatMap Record.findings) = [] := by
    intro records hne
    rw [onLine, List.filter_flatMap, List.flatMap_eq_nil_iff]
    exact fun r' hr' => onLine_findings_of_ne (hne r' hr')
  have hself : onLine r.line.number r.findings = r.findings := by
    rw [onLine, List.filter_eq_self]
    intro found hfound
    obtain ⟨f, -, rfl⟩ := List.mem_map.mp hfound
    exact decide_eq_true rfl
  have habove := hnone front fun r' hr' => Nat.ne_of_lt (hfront r' hr' r List.mem_cons_self)
  have hbelow := hnone back fun r' hr' => Nat.ne_of_gt (hback r' hr')
  rw [on_ofFindings, hsplit, List.flatMap_append, List.flatMap_cons, onLine_append, onLine_append,
    habove, hbelow, hself, List.nil_append, List.append_nil]

/-- A definition is what its line says: one value for each token, and a complaint
about each token that has none. -/
structure ReadFrom (l : Layout) (n : Nat) (d : Definition) (tokens : List Text) : Prop where
  line : ∃ code ∈ programLines l.lines, code.number = n ∧ d.id = Text.upper code.head ∧
    ∃ word, code.rest = word :: tokens ∧ Directive.ofName? word = some d.type.directive
  values : d.values = if tokens = [] then [some 0] else tokens.map d.type.valueOf?
  warnings : l.report.on .warning n = if tokens = [] then [.missingOperand] else []
  /-- If this is the last line, it may also be said here that the segment has no
  length. -/
  errors : (l.report.on .error n).filter (fun e => !e.isSegmentLength) =
    (tokens.filter d.type.isFaulty).map d.type.complaint

/-- The findings of a definition by their severity. -/
theorem select_valueFindings (type : DataType) (tokens : List Text) :
    Report.select .warning ((valueFindings type tokens).map fun f => (n, f)) =
        (if tokens = [] then [(n, .missingOperand)] else []) ∧
      Report.select .error ((valueFindings type tokens).map fun f => (n, f)) =
        (tokens.filter type.isFaulty).map fun token => (n, type.complaint token) := by
  by_cases hnone : tokens = []
  · subst hnone
    exact ⟨rfl, rfl⟩
  · rw [valueFindings_of_ne_nil type hnone, if_neg hnone, List.map_map, Report.select,
      Report.select, List.filterMap_map, List.filterMap_map, ← List.filterMap_eq_map]
    refine ⟨List.filterMap_eq_nil_iff.mpr fun token _ => rfl, List.filterMap_congr fun _ _ => rfl⟩

/-- Encoding has no complaint about data. -/
theorem on_error_of_data (h : (n, .data d) ∈ (ofSource source).items) :
    ((ofSource source).report.on .error n).filter (fun e => !e.isSegmentLength) =
      ((Report.ofFindings ((ofSource source).records.flatMap Record.findings)).on .error n).filter
        fun e => !e.isSegmentLength := by
  have hencoding : (Report.ofFindings (ofSource source).image.findings).on .error n = [] := by
    rw [image, Image.on_findings (pairwise_items source),
      (Ascending.lookup_eq_some_iff (pairwise_items source)).mpr h]
    rfl
  rw [on_error_report, hencoding, List.append_nil, filter_on_scan]

/-- **Definitions are read from their lines.** -/
theorem exists_readFrom (h : (n, .data d) ∈ (ofSource source).items) :
    ∃ tokens, (ofSource source).ReadFrom n d tokens ∧ ∃ a,
      (ofSource source).addressAt? n = some a ∧ a + d.size ≤ topAddress := by
  have herrors := on_error_of_data h
  obtain ⟨r, hr, rfl, hitem⟩ := mem_items_iff.mp h
  have haddress := addressAt?_of_item hr hitem
  have hadmits := admits_of_mem_records hr
  have hverdict : r.verdict = r.before.judge r.line := State.verdict_of_mem_run hr
  have hprogram := line_mem_programLines hr
  have hend := CodeLine.isEnd_eq_false_iff.mp (isEnd_eq_false_of_mem_programLines hprogram)
  have hsays := Statement.says_ofWords hend r.line.rest
  obtain ⟨id, type, values, heffect, rfl⟩ := Effect.eq_defined_of_item? hitem
  rw [heffect] at hadmits
  cases hadmits with
  | @defined _ _ tokens hphase hwords hname hfree htop =>
      rw [State.judge_of_define hphase hwords hname hfree htop] at hverdict
      obtain ⟨hwarnings, hfaults⟩ := select_valueFindings (n := r.line.number) type tokens
      have hfindings : r.findings =
          (valueFindings type tokens).map fun f => (r.line.number, f) := by
        rw [Record.findings, hverdict]
      refine ⟨tokens, ⟨?_, ?_, ?_, ?_⟩, r.before.counter, haddress, htop⟩
      · rw [hwords] at hsays
        cases hsays with
        | define _ hrest hword => exact ⟨r.line, hprogram, rfl, rfl, _, hrest, hword⟩
      · by_cases hnone : tokens = []
        · rw [if_pos hnone, hnone]
          rfl
        · rw [if_neg hnone]
          exact definedValues_of_ne_nil type hnone
      · rw [on_warning_report, on_records hr, hfindings, hwarnings]
        split <;> rfl
      · rw [herrors, on_records hr, hfindings, hfaults, List.map_map, List.filter_eq_self.mpr]
        · rfl
        · intro e he
          obtain ⟨token, -, rfl⟩ := List.mem_map.mp he
          simp only [Function.comp_apply, DataType.complaint]
          cases Numeral.read? token <;> rfl

end Layout

/-! ### Bytes and cells -/

/-- The number that bytes make, the lowest one first. -/
def littleEndian : List UInt8 → Nat
  | [] => 0
  | b :: rest => b.toNat + 256 * littleEndian rest

/-- The digits of a cell. -/
def capitalDigits : Text := "0123456789ABCDEF".toList

/-- Hexadecimal text is written in capitals. -/
theorem Numeral.mem_capitalDigits_of_mem_hexDigits {width k : Nat} {c : Char}
    (h : c ∈ hexDigits width k) : c ∈ capitalDigits := by
  have hdigit : ∀ j < 16, hexDigit j ∈ capitalDigits := by decide
  induction width generalizing k with
  | zero => cases h
  | succ width ih =>
      rcases List.mem_append.mp h with h | h
      · exact ih h
      · rw [List.mem_singleton.mp h]
        exact hdigit _ (Nat.mod_lt _ (by decide))

namespace DataType

/-- The modulus of a type is a power of two, by its width in bits. -/
theorem cast_modulus (t : DataType) : (t.modulus : Int) = 2 ^ (8 * t.width) := by
  cases t <;> rfl

/-- A value is stored modulo that power. -/
theorem cast_store (t : DataType) (v : Int) : (t.store v : Int) = v % 2 ^ (8 * t.width) := by
  have hpos : (0 : Int) < t.modulus := by cases t <;> decide
  rw [store, Int.toNat_of_nonneg (Int.emod_nonneg _ (ne_of_gt hpos)), cast_modulus]

/-- The bytes of a number that fits make it again. -/
theorem littleEndian_bytes (t : DataType) {k : Nat} (h : k < t.modulus) :
    littleEndian (t.bytes k) = k := by
  cases t with
  | byte =>
      simp only [modulus] at h
      simp only [bytes, littleEndian, UInt8.toNat_ofNat']
      omega
  | word =>
      simp only [modulus] at h
      simp only [bytes, wordBytes, littleEndian, UInt8.toNat_ofNat']
      omega

/-- **The bytes of a value** make it up to a multiple of the modulus. -/
theorem littleEndian_cellBytes (t : DataType) (v : Option Int) :
    (littleEndian (t.cellBytes v) : Int) = v.getD 0 % 2 ^ (8 * t.width) := by
  cases v with
  | none =>
      have hpos : 0 < t.modulus := by cases t <;> decide
      rw [cellBytes, Option.map_none, Option.getD_none, Option.getD_none,
        littleEndian_bytes t hpos, Int.zero_emod]
      rfl
  | some v =>
      rw [cellBytes, Option.map_some, Option.getD_some, Option.getD_some,
        littleEndian_bytes t (t.store_lt v), cast_store]

/-- A cell that shows a value in capital hexadecimal digits, or its absence in
question marks. -/
def ShowsValue (t : DataType) (cell : Text) : Option Int → Prop
  | none => cell = List.replicate (2 * t.width) '?'
  | some v => cell.length = 2 * t.width ∧ (∀ c ∈ cell, c ∈ capitalDigits) ∧
      ∃ k : Nat, Numeral.magnitude? 16 cell = some k ∧ (k : Int) = v % 2 ^ (8 * t.width)

/-- **A cell shows its value.** -/
theorem showsValue_cellText (t : DataType) (v : Option Int) : t.ShowsValue (t.cellText v) v := by
  cases v with
  | none => rfl
  | some v =>
      have hwidth : 0 < 2 * t.width := by cases t <;> decide
      have hlt : t.store v < 16 ^ (2 * t.width) := by
        rw [← modulus_eq_pow]
        exact t.store_lt v
      exact ⟨Numeral.length_hexDigits _ _,
        fun c hc => Numeral.mem_capitalDigits_of_mem_hexDigits hc,
        t.store v, Numeral.magnitude?_hexDigits hwidth hlt, t.cast_store v⟩

theorem cellsPerRow_pos (t : DataType) : 0 < t.cellsPerRow := by cases t <;> decide

end DataType

/-! ### Rows -/

/-- The cells on a row. -/
def rowCells (perRow : Nat) (cells : List Text) (i : Nat) : List Text :=
  (cells.drop (perRow * i)).take perRow

/-- Cells in rows, with a blank between neighbours: as few rows as will do, all of
them full and marked except the last. -/
structure InRows (perRow : Nat) (marker : Text) (cells rows : List Text) : Prop where
  count : rows.length = cells.length ⌈/⌉ perRow
  row : ∀ i < rows.length, rows[i]? =
    some ([' '].intercalate (rowCells perRow cells i) ++
      if i + 1 < rows.length then marker else [])
  full : ∀ i, i + 1 < rows.length → (rowCells perRow cells i).length = perRow
  last : ∀ i, i + 1 = rows.length →
    1 ≤ (rowCells perRow cells i).length ∧ (rowCells perRow cells i).length ≤ perRow

/-- A row holds the cells from its place on. -/
theorem getElem?_cutRows {α : Type} (perRow : Nat) {count i : Nat} (h : i < count) (xs : List α) :
    (cutRows perRow count xs)[i]? = some ((xs.drop (perRow * i)).take perRow) := by
  induction count generalizing i xs with
  | zero => omega
  | succ count ih =>
      cases i with
      | zero => rfl
      | succ i =>
          rw [cutRows, List.getElem?_cons_succ, ih (by omega), List.drop_drop, Nat.mul_succ,
            Nat.add_comm]

/-- All rows but the last are marked. -/
theorem getElem?_markRows (marker : Text) (rows : List Text) (i : Nat) :
    (markRows marker rows)[i]? =
      rows[i]?.map fun row => row ++ if i + 1 < rows.length then marker else [] := by
  induction rows generalizing i with
  | nil => rfl
  | cons row rest ih =>
      cases rest with
      | nil => cases i <;> simp [markRows]
      | cons next rest =>
          cases i with
          | zero => simp [markRows]
          | succ i => simp only [markRows, List.getElem?_cons_succ, ih, List.length_cons,
              Nat.add_lt_add_iff_right]

namespace Definition

variable {d : Definition}

/-- There are as many rows as the values need. -/
theorem length_rows (d : Definition) :
    d.hex.rows.length = rowCount d.type.cellsPerRow d.values.length := by
  rw [hex, length_markRows, List.length_map, cellRows, length_cutRows]

/-- A row begins before the values end, and only the last one reaches their end. -/
theorem row_bounds {i : Nat} (h : i < d.hex.rows.length) :
    d.type.cellsPerRow * i < d.values.length ∧
      (i + 1 < d.hex.rows.length → d.type.cellsPerRow * i + d.type.cellsPerRow ≤ d.values.length)
      := by
  have hpos := d.type.cellsPerRow_pos
  obtain ⟨-, hneeded⟩ := rowCount_bounds hpos d.values.length
  rw [length_rows] at h ⊢
  have hscaled : (i + 1) * d.type.cellsPerRow ≤
      rowCount d.type.cellsPerRow d.values.length * d.type.cellsPerRow := Nat.mul_le_mul_right _ h
  rw [Nat.succ_mul, Nat.mul_comm i] at hscaled
  refine ⟨by omega, fun hnext => ?_⟩
  have hfurther : (i + 1 + 1) * d.type.cellsPerRow ≤
      rowCount d.type.cellsPerRow d.values.length * d.type.cellsPerRow :=
    Nat.mul_le_mul_right _ hnext
  rw [Nat.succ_mul, Nat.succ_mul, Nat.mul_comm i] at hfurther
  omega

/-- **The cells of a definition in rows.** -/
theorem inRows_hex (d : Definition) :
    InRows d.type.cellsPerRow d.type.marker (d.values.map d.type.cellText) d.hex.rows where
  count := by
    rw [length_rows, List.length_map, Nat.ceilDiv_eq_add_pred_div, rowCount]
  row i hi := by
    have hi' : i < rowCount d.type.cellsPerRow d.values.length := d.length_rows ▸ hi
    have hlength : (d.cellRows.map spaced).length = d.hex.rows.length := by
      rw [hex, length_markRows]
    rw [← hlength, hex, getElem?_markRows, List.getElem?_map, cellRows, getElem?_cutRows _ hi']
    rfl
  full i hi := by
    have hbounds := (row_bounds (Nat.lt_of_succ_lt hi)).2 hi
    rw [rowCells, List.length_take, List.length_drop, List.length_map]
    omega
  last i hi := by
    have hbounds := (row_bounds (d := d) (i := i) (by omega)).1
    have hpos := d.type.cellsPerRow_pos
    rw [rowCells, List.length_take, List.length_drop, List.length_map]
    omega

end Definition

/-! ### The listing -/

/-- An address takes four digits. -/
theorem Numeral.hexAtLeast_of_le {k : Nat} (h : k ≤ topAddress) :
    hexAtLeast 4 k = hexDigits 4 k := by
  have hlog : k.log2 < 16 := by
    by_cases hzero : k = 0
    · rw [hzero]
      decide
    · exact (Nat.log2_lt hzero).mpr (Nat.lt_of_le_of_lt h (by decide))
  rw [hexAtLeast, Nat.max_eq_left (by omega)]

namespace Listing

/-- Below the line stand the rows of its code from the second on. -/
theorem getElem?_continuationRows (base : Nat) (hex : CodeText) (i : Nat) :
    (continuationRows (some base) (some hex))[i]? =
      hex.rows[i + 1]?.map (continuationRow base hex.step (i + 1)) := by
  rw [continuationRows, List.getElem?_map, List.getElem?_zipIdx, List.getElem?_drop,
    Nat.add_comm 1 i, Option.map_map]
  rfl

/-- Beside the line stands the first row of its code, at its address. -/
theorem sourceRow_of_code (base : Nat) {hex : CodeText} {row : Text} (h : hex.rows[0]? = some row)
    (line : Line) :
    sourceRow (some base) (some hex) line =
      Text.padRight 3 (Numeral.decimal line.number) ++ " | ".toList ++ Numeral.hexDigits 4 base
        ++ " | ".toList ++ Text.padRight 12 row ++ "| ".toList ++ line.text := by
  have hwide : Text.padRight 4 (Numeral.hexDigits 4 base) = Numeral.hexDigits 4 base := by
    simp [Text.padRight]
  rw [← List.head?_eq_getElem?] at h
  simp only [sourceRow, Option.map_some, Option.getD_some, Option.bind_some, h, hwide]

end Listing

namespace Layout

variable {source : Text} {n : Nat} {d : Definition}

/-- No line behind the end is scanned. -/
theorem number_le_lastLine {r : Record} (hr : r ∈ (ofSource source).records) :
    r.line.number ≤ (ofSource source).lastLine := by
  cases hend : (ofSource source).endLine with
  | none =>
      rw [lastLine, hend, Option.getD_none]
      exact number_le_of_mem_records hr
  | some k =>
      rw [lastLine_of_endLine hend]
      obtain ⟨last, hfind, rfl⟩ := Option.map_eq_some_iff.mp hend
      obtain ⟨hlast, front, back, hsplit, hfront⟩ := List.find?_eq_some_iff_append.mp hfind
      have hprogram : programLines (splitLines source) = front := by
        rw [programLines, hsplit, List.takeWhile_append_of_pos hfront,
          List.takeWhile_cons_of_neg (by simp [hlast]), List.append_nil]
      have hsorted := pairwise_number_codeLines source
      rw [hsplit, List.pairwise_append] at hsorted
      have hmem := line_mem_programLines hr
      rw [hprogram] at hmem
      exact Nat.le_of_lt (hsorted.2.2 _ hmem _ List.mem_cons_self)

/-- Every scanned line is shown in the listing. -/
theorem exists_shown_line {r : Record} (hr : r ∈ (ofSource source).records) :
    ∃ line ∈ (ofSource source).shown, line.number = r.line.number := by
  obtain ⟨line, hline, hnumber⟩ := exists_line_of_mem_programLines (line_mem_programLines hr)
  obtain ⟨i, hi⟩ := List.getElem?_of_mem hline
  have hplace := number_of_getElem?_splitLines hi
  have hlast := number_le_lastLine hr
  refine ⟨line, ?_, hnumber⟩
  refine List.mem_of_getElem? (i := i) ?_
  rw [shown, List.getElem?_take_of_lt (by omega)]
  exact hi

/-- Rows in the listing: the first beside its line, the others below it and each at
its address, a fixed step after the one before. -/
def ListedAt (l : Layout) (n a step : Nat) (rows : List Text) : Prop :=
  ∃ line ∈ l.lines, line.number = n ∧ ∃ front block back,
    l.listing.text.splitOn '\n' = front ++ block ++ back ∧ block.length = rows.length ∧
    (∀ row, rows[0]? = some row → block[0]? =
      some (Text.padRight 3 (Numeral.decimal n) ++ " | ".toList ++ Numeral.hexDigits 4 a
        ++ " | ".toList ++ Text.padRight 12 row ++ "| ".toList ++ line.text)) ∧
    ∀ i row, 0 < i → rows[i]? = some row →
      block[i]? = some (" \t".toList ++ Numeral.hexDigits 4 (a + step * i) ++ "      ".toList
        ++ row) ∧
      a + step * i ≤ topAddress

/-- The rows of a line stand together in the listing. -/
theorem exists_block {r : Record} (hr : r ∈ (ofSource source).records) :
    ∃ line ∈ (ofSource source).lines, line.number = r.line.number ∧ ∃ front back,
      (ofSource source).listing.text.splitOn '\n' =
        front ++ (ofSource source).listing.lineRows line ++ back := by
  obtain ⟨line, hline, hnumber⟩ := exists_shown_line hr
  obtain ⟨above, below, hsplit⟩ := List.append_of_mem hline
  refine ⟨line, List.mem_of_mem_take hline, hnumber,
    above.flatMap (ofSource source).listing.lineRows,
    below.flatMap (ofSource source).listing.lineRows ++
      ((ofSource source).listing.nameRows ++ (ofSource source).listing.diagnosticRows), ?_⟩
  rw [splitOn_listing, hsplit, List.flatMap_append, List.flatMap_cons]
  simp only [List.append_assoc]

/-- A row stands at an address that is not past the top. -/
theorem rowAddress_le {a i : Nat} (htop : a + d.size ≤ topAddress) (hi : i < d.hex.rows.length) :
    a + d.type.width * d.type.cellsPerRow * i ≤ topAddress := by
  have hbefore := Nat.mul_le_mul_left d.type.width (Nat.le_of_lt (Definition.row_bounds hi).1)
  rw [← Nat.mul_assoc] at hbefore
  rw [Definition.size] at htop
  omega

/-- **The rows of a definition are listed**, at the addresses of their values. -/
theorem listedAt {a : Nat} (h : (n, .data d) ∈ (ofSource source).items)
    (haddress : (ofSource source).addressAt? n = some a) (htop : a + d.size ≤ topAddress) :
    (ofSource source).ListedAt n a (d.type.width * d.type.cellsPerRow) d.hex.rows := by
  have hne : d.hex.rows ≠ [] := Definition.rows_ne_nil (values_ne_nil h)
  have hhex : (ofSource source).image.hex.lookup n = some d.hex := by
    rw [image, Image.lookup_hex (pairwise_items source),
      (Ascending.lookup_eq_some_iff (pairwise_items source)).mpr h]
    rfl
  obtain ⟨r, hr, rfl, -⟩ := mem_items_iff.mp h
  obtain ⟨line, hline, hnumber, front, back, hrows⟩ := exists_block hr
  have hblock : (ofSource source).listing.lineRows line =
      Listing.sourceRow (some a) (some d.hex) line ::
        Listing.continuationRows (some a) (some d.hex) := by
    have hunfold : (ofSource source).listing.lineRows line =
        Listing.sourceRow ((ofSource source).addressAt? line.number)
          ((ofSource source).image.hex.lookup line.number) line ::
        Listing.continuationRows ((ofSource source).addressAt? line.number)
          ((ofSource source).image.hex.lookup line.number) := rfl
    rw [hunfold, hnumber, haddress, hhex]
  rw [hblock] at hrows
  refine ⟨line, hline, hnumber, front, _, back, hrows, ?_, ?_, ?_⟩
  · have hpos := List.length_pos_of_ne_nil hne
    simp only [Listing.continuationRows, List.length_cons, List.length_map, List.length_zipIdx,
      List.length_drop]
    omega
  · intro row hrow
    rw [← hnumber, List.getElem?_cons_zero, Listing.sourceRow_of_code a hrow]
  · intro i row hi hrow
    obtain ⟨hlt, -⟩ := List.getElem?_eq_some_iff.mp hrow
    have hle := rowAddress_le htop hlt
    have hstep : d.hex.step = d.type.width * d.type.cellsPerRow := Nat.mul_comm _ _
    obtain ⟨i, rfl⟩ := Nat.exists_eq_succ_of_ne_zero (Nat.ne_of_gt hi)
    rw [List.getElem?_cons_succ, Listing.getElem?_continuationRows, hrow, Option.map_some,
      Listing.continuationRow, hstep, Numeral.hexAtLeast_of_le hle]
    exact ⟨rfl, hle⟩

/-! ### The whole way -/

/-- A definition on its way: the tokens it is read from, its code, and the cells
that show it from its address on. -/
structure LaidOut (l : Layout) (n : Nat) (d : Definition) (tokens : List Text) (a : Nat)
    (code : Encoded) (cells : List Text) : Prop where
  read : l.ReadFrom n d tokens
  address : l.addressAt? n = some a
  encoded : (n, code) ∈ l.image.encoded
  bytes : ∃ parts, code.bytes = parts.flatten ∧ List.Forall₂ (fun part v =>
    part.length = d.type.width ∧ (littleEndian part : Int) = v.getD 0 % 2 ^ (8 * d.type.width))
    parts d.values
  shown : List.Forall₂ d.type.ShowsValue cells d.values
  /-- Four words stand on a row, and the next row is eight bytes further on. -/
  words : d.type = .word → InRows 4 " +".toList cells code.hex.rows ∧
    l.ListedAt n a 8 code.hex.rows
  /-- Seven bytes stand on a row. -/
  octets : d.type = .byte → InRows 7 "+".toList cells code.hex.rows ∧
    l.ListedAt n a 7 code.hex.rows

/-- **Data reaches the object code and the listing as it stands on its line.** -/
theorem definition_laid_out (h : (n, .data d) ∈ (ofSource source).items) :
    ∃ tokens a code cells, (ofSource source).LaidOut n d tokens a code cells := by
  obtain ⟨tokens, hread, a, haddress, htop⟩ := exists_readFrom h
  have hrows := d.inRows_hex
  have hlisted := listedAt h haddress htop
  refine ⟨tokens, a, d.encode, d.values.map d.type.cellText, hread, haddress, ?_, ?_, ?_, ?_, ?_⟩
  · simp only [image, Image.encoded, Image.ofItems, List.mem_filterMap, List.mem_map]
    exact ⟨_, ⟨_, h, rfl⟩, rfl⟩
  · refine ⟨d.values.map d.type.cellBytes, List.flatMap_def, ?_⟩
    rw [List.forall₂_map_left_iff, List.forall₂_same]
    exact fun v _ => ⟨DataType.length_bytes _ _, d.type.littleEndian_cellBytes v⟩
  · rw [List.forall₂_map_left_iff, List.forall₂_same]
    exact fun v _ => d.type.showsValue_cellText v
  · intro hword
    obtain ⟨id, type, values⟩ := d
    cases hword
    exact ⟨hrows, hlisted⟩
  · intro hbyte
    obtain ⟨id, type, values⟩ := d
    cases hbyte
    exact ⟨hrows, hlisted⟩

/-- Five tokens, two of them without a value, on two rows. -/
theorem definition_laid_out_two_rows :
    let l := ofSource "S SEGMENT\nT DW 1, 0FFh, ?, 70000, -1\nS ENDS".toList
    let d : Definition := ⟨"T".toList, .word, [some 1, some 255, none, none, some (-1)]⟩
    (2, .data d) ∈ l.items ∧
      d.hex.rows = ["0001 00FF ???? ???? +".toList, "FFFF".toList] ∧
      ∃ tokens a code cells, l.LaidOut 2 d tokens a code cells := by
  intro l d
  have hitem : (2, .data d) ∈ l.items := by decide
  exact ⟨hitem, by decide, definition_laid_out hitem⟩

end Layout

end SegmentAssembler
