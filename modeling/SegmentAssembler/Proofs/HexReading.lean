import Mathlib.Data.List.Basic
import SegmentAssembler.Proofs.ImageLines

/-!
# The text of the listing, read back

The text of a definition is made from its values and not from its bytes, and
the text of an instruction shows its last two bytes the other way round.  Here
the text is read on its own: continuation markers are taken off, rows are cut
at blanks, two digits are a byte and four digits a word with the low byte
first, and question marks stand for zero.

* `cellBytes?_hexDigits` — digits are read as the number they were written for;
* `rowBytes?_spaced` — a row is read cell by cell, with or without a marker;
* `Definition.bytes?_hex` and `Instruction.bytes?_hexOf` — so the text of an
  item is read as its bytes;
* `hex_reads_back` — and the text of a program as its code.
-/

namespace SegmentAssembler

/-! ### Reading piece by piece -/

/-- Read every piece, and put what they give in a row. -/
def readAll? {α : Type} (read : α → Option (List UInt8)) : List α → Option (List UInt8)
  | [] => some []
  | piece :: rest => (read piece).bind fun bytes => (readAll? read rest).map (bytes ++ ·)

section ReadAll

variable {α β : Type} {read : α → Option (List UInt8)}

/-- Pieces that are read one by one are read together. -/
theorem readAll?_eq_some {pieces : List α} {bytes : α → List UInt8}
    (h : ∀ piece ∈ pieces, read piece = some (bytes piece)) :
    readAll? read pieces = some (pieces.flatMap bytes) := by
  induction pieces with
  | nil => rfl
  | cons piece rest ih =>
      have hrest := ih fun other hother => h other (List.mem_cons_of_mem _ hother)
      rw [readAll?, h piece List.mem_cons_self, hrest]
      rfl

theorem readAll?_map (pieces : List β) (text : β → α) :
    readAll? read (pieces.map text) = readAll? (fun piece => read (text piece)) pieces := by
  induction pieces with
  | nil => rfl
  | cons piece rest ih => rw [List.map_cons, readAll?, readAll?, ih]

end ReadAll

/-! ### Digits -/

namespace Numeral

theorem digitValue_hexDigit : ∀ n < 16, digitValue (hexDigit n) = n := by decide

/-- Writing keeps the lowest digits of the number. -/
theorem value_hexDigits (width n : Nat) : value 16 (hexDigits width n) = n % 16 ^ width := by
  induction width generalizing n with
  | zero => rw [Nat.pow_zero, Nat.mod_one, hexDigits, value, List.foldl_nil]
  | succ width ih =>
      have hlast : digitValue (hexDigit (n % 16)) = n % 16 :=
        digitValue_hexDigit _ (Nat.mod_lt _ (by decide))
      have hfront := ih (n / 16)
      unfold value at hfront ⊢
      rw [hexDigits, List.foldl_append, List.foldl_cons, List.foldl_nil, hfront, hlast,
        Nat.pow_succ', Nat.mod_mul]
      omega

/-- Hexadecimal text consists of hexadecimal digits. -/
theorem digitValue_lt_of_mem_hexDigits {width n : Nat} {c : Char} (h : c ∈ hexDigits width n) :
    digitValue c < 16 := by
  induction width generalizing n with
  | zero => exact nomatch h
  | succ width ih =>
      rw [hexDigits, List.mem_append, List.mem_singleton] at h
      rcases h with hfront | rfl
      · exact ih hfront
      · have hlt : n % 16 < 16 := Nat.mod_lt _ (by decide)
        rw [digitValue_hexDigit _ hlt]
        exact hlt

/-- **Digits are read as the number they were written for.** -/
theorem magnitude?_hexDigits {width n : Nat} (hwidth : 0 < width) (hn : n < 16 ^ width) :
    magnitude? 16 (hexDigits width n) = some n := by
  have hne : hexDigits width n ≠ [] := by
    rw [ne_eq, ← List.length_eq_zero_iff, length_hexDigits]
    omega
  have hall : (hexDigits width n).all (isDigit 16) = true := by
    rw [List.all_eq_true]
    intro c hc
    exact decide_eq_true (digitValue_lt_of_mem_hexDigits hc)
  rw [magnitude?, if_pos ⟨hne, hall⟩, value_hexDigits, Nat.mod_eq_of_lt hn]

end Numeral

/-! ### Cells -/

/-- The type of a cell shows in its width. -/
def cellType? (cell : Text) : Option DataType :=
  if cell.length = 2 then some .byte else if cell.length = 4 then some .word else none

/-- The bytes that a cell shows: its number in the bytes of its type, or zero
for question marks. -/
def cellBytes? (cell : Text) : Option (List UInt8) :=
  (cellType? cell).bind fun type =>
    if cell = List.replicate cell.length '?' then some (type.bytes 0)
    else (Numeral.magnitude? 16 cell).map type.bytes

/-- The characters that cells are written in. -/
def isCellChar (c : Char) : Bool := Numeral.isDigit 16 c || c == '?'

/-- A text as it stands between the blanks of a row. -/
structure IsCell (cell : Text) : Prop where
  ne_nil : cell ≠ []
  chars : ∀ c ∈ cell, isCellChar c = true

/-- The type of a cell is read off its length. -/
theorem cellType?_of_length {type : DataType} {cell : Text} (h : cell.length = 2 * type.width) :
    cellType? cell = some type := by
  cases type <;> simp [cellType?, h, DataType.width]

theorem isCell_of_length (type : DataType) {cell : Text} (hlength : cell.length = 2 * type.width)
    (hchars : ∀ c ∈ cell, isCellChar c = true) : IsCell cell := by
  refine ⟨?_, hchars⟩
  rintro rfl
  cases type <;> exact nomatch hlength

theorem isCell_hexDigits (type : DataType) (n : Nat) :
    IsCell (Numeral.hexDigits (2 * type.width) n) := by
  refine isCell_of_length type (Numeral.length_hexDigits _ _) fun c hc => ?_
  have hdigit := Numeral.digitValue_lt_of_mem_hexDigits hc
  simp [isCellChar, Numeral.isDigit, hdigit]

/-- Two digits for each byte leave room for exactly the stored values. -/
theorem modulus_eq_pow (type : DataType) : type.modulus = 16 ^ (2 * type.width) := by
  cases type <;> rfl

/-- A number is read back in the bytes of the type. -/
theorem cellBytes?_hexDigits (type : DataType) {n : Nat} (hn : n < type.modulus) :
    cellBytes? (Numeral.hexDigits (2 * type.width) n) = some (type.bytes n) := by
  have hlength := Numeral.length_hexDigits (2 * type.width) n
  have hwidth : 0 < 2 * type.width := by cases type <;> decide
  -- the question mark is no digit, so the text is not taken for an absent value
  have hdigits : Numeral.hexDigits (2 * type.width) n ≠ List.replicate (2 * type.width) '?' := by
    intro heq
    have hmem : '?' ∈ Numeral.hexDigits (2 * type.width) n := by
      rw [heq, List.mem_replicate]
      exact ⟨Nat.ne_of_gt hwidth, rfl⟩
    exact absurd (Numeral.digitValue_lt_of_mem_hexDigits hmem) (by decide)
  rw [modulus_eq_pow] at hn
  rw [cellBytes?, cellType?_of_length hlength, Option.bind_some, hlength, if_neg hdigits,
    Numeral.magnitude?_hexDigits hwidth hn, Option.map_some]

/-- Two digits are read as their byte. -/
theorem cellBytes?_hexByte (b : UInt8) : cellBytes? (hexByte b) = some [b] := by
  have hread := cellBytes?_hexDigits .byte b.toNat_lt
  have hbytes : DataType.byte.bytes b.toNat = [b] := by
    rw [DataType.bytes, UInt8.ofNat_toNat]
  rw [hbytes] at hread
  exact hread

/-- Four digits are read as the two bytes of a word, the low one first. -/
theorem cellBytes?_word (low high : UInt8) :
    cellBytes? (Numeral.hexDigits 4 (low.toNat + 256 * high.toNat)) = some [low, high] := by
  have hlow := low.toNat_lt
  have hhigh := high.toNat_lt
  have hlt : low.toNat + 256 * high.toNat < DataType.word.modulus := by
    show low.toNat + 256 * high.toNat < 65536
    omega
  have hread := cellBytes?_hexDigits .word hlt
  rw [DataType.bytes, wordBytes_toNat] at hread
  exact hread

namespace DataType

/-- The text of a value is a cell, and so is that of an absent one. -/
theorem isCell_cellText (type : DataType) (v : Option Int) : IsCell (type.cellText v) := by
  cases v with
  | some v => exact isCell_hexDigits type _
  | none =>
      refine isCell_of_length type List.length_replicate fun c hc => ?_
      rw [(List.mem_replicate.mp hc).2]
      rfl

/-- **A cell is read as its bytes**, whether its value is there or not. -/
theorem cellBytes?_cellText (type : DataType) (v : Option Int) :
    cellBytes? (type.cellText v) = some (type.cellBytes v) := by
  cases v with
  | some v => exact cellBytes?_hexDigits type (type.store_lt v)
  | none =>
      have habsent : type.cellText none = List.replicate (2 * type.width) '?' := rfl
      have hlength : (type.cellText none).length = 2 * type.width := List.length_replicate
      rw [cellBytes?, cellType?_of_length hlength, Option.bind_some, hlength, if_pos habsent]
      rfl

end DataType

/-! ### Rows -/

/-- A row without the sign that the data goes on. -/
def unmarked (row : Text) : Text :=
  match row.reverse with
  | '+' :: ' ' :: rest => rest.reverse
  | '+' :: rest => rest.reverse
  | _ => row

/-- The bytes that a row shows. -/
def rowBytes? (row : Text) : Option (List UInt8) := readAll? cellBytes? ((unmarked row).splitOn ' ')

/-- The bytes that the text of a line shows. -/
def CodeText.bytes? (text : CodeText) : Option (List UInt8) := readAll? rowBytes? text.rows

/-- No cell holds a blank or the sign that the data goes on. -/
theorem isCellChar_ne {c : Char} (h : isCellChar c = true) : c ≠ '+' ∧ c ≠ ' ' := by
  constructor
  · rintro rfl
    exact absurd h (by decide)
  · rintro rfl
    exact absurd h (by decide)

/-- A row ends in a character of its last cell. -/
theorem exists_last_spaced {cells : List Text} (hne : cells ≠ [])
    (hcells : ∀ cell ∈ cells, IsCell cell) :
    ∃ front last, spaced cells = front ++ [last] ∧ isCellChar last = true := by
  induction cells with
  | nil => exact absurd rfl hne
  | cons cell rest ih =>
      cases rest with
      | nil =>
          have hcell := hcells cell List.mem_cons_self
          have hlast := List.getLast_mem hcell.ne_nil
          refine ⟨cell.dropLast, cell.getLast hcell.ne_nil, ?_, hcell.chars _ hlast⟩
          rw [List.dropLast_concat_getLast]
          exact List.intercalate_singleton
      | cons next rest =>
          have htail := ih (List.cons_ne_nil _ _) fun other hother =>
            hcells other (List.mem_cons_of_mem _ hother)
          obtain ⟨front, last, hspaced, hlast⟩ := htail
          refine ⟨cell ++ [' '] ++ front, last, ?_, hlast⟩
          rw [List.append_assoc _ front, ← hspaced]
          exact List.intercalate_cons_cons

/-- A row that ends in a cell has no marker to take off. -/
theorem unmarked_of_last {front : Text} {last : Char} (h : isCellChar last = true) :
    unmarked (front ++ [last]) = front ++ [last] := by
  have hplus := (isCellChar_ne h).1
  unfold unmarked
  rw [List.reverse_append, List.reverse_singleton, List.singleton_append]
  split
  · rename_i heq
    exact absurd (List.cons.inj heq).1 hplus
  · rename_i heq
    exact absurd (List.cons.inj heq).1 hplus
  · rfl

/-- The marker of either type is taken off, and nothing else. -/
theorem unmarked_marker (type : DataType) {front : Text} {last : Char}
    (h : isCellChar last = true) :
    unmarked (front ++ [last] ++ type.marker) = front ++ [last] := by
  have hblank := (isCellChar_ne h).2
  cases type with
  | word => simp [unmarked, DataType.marker]
  | byte =>
      -- the marker of bytes has no blank of its own, nor does the last cell end in one
      have hreverse : (front ++ [last] ++ DataType.byte.marker).reverse =
          '+' :: last :: front.reverse := by
        simp [DataType.marker]
      unfold unmarked
      rw [hreverse]
      split
      · rename_i heq
        exact absurd (List.cons.inj (List.cons.inj heq).2).1 hblank
      · rename_i heq
        rw [← (List.cons.inj heq).2, List.reverse_cons, List.reverse_reverse]
      · rename_i hother
        exact absurd rfl (hother _)

/-- **A row is read cell by cell**, and the marker at its end changes nothing. -/
theorem rowBytes?_spaced {cells : List Text} (hne : cells ≠ [])
    (hcells : ∀ cell ∈ cells, IsCell cell) :
    rowBytes? (spaced cells) = readAll? cellBytes? cells ∧
      ∀ type : DataType, rowBytes? (spaced cells ++ type.marker) = rowBytes? (spaced cells) := by
  obtain ⟨front, last, hspaced, hlast⟩ := exists_last_spaced hne hcells
  have hplain : unmarked (spaced cells) = spaced cells := by
    rw [hspaced]
    exact unmarked_of_last hlast
  constructor
  · have hblank : ∀ cell ∈ cells, ' ' ∉ cell := by
      intro cell hcell hmem
      exact (isCellChar_ne ((hcells cell hcell).chars ' ' hmem)).2 rfl
    have hsplit : (spaced cells).splitOn ' ' = cells := List.splitOn_intercalate ' ' hblank hne
    rw [rowBytes?, hplain, hsplit]
  · intro type
    have hmarked : unmarked (spaced cells ++ type.marker) = spaced cells := by
      rw [hspaced]
      exact unmarked_marker type hlast
    rw [rowBytes?, rowBytes?, hmarked, hplain]

/-- The text of one row is read cell by cell. -/
theorem CodeText.bytes?_single (cells : List Text) (hne : cells ≠ [])
    (hcells : ∀ cell ∈ cells, IsCell cell) :
    (CodeText.single (spaced cells)).bytes? = readAll? cellBytes? cells := by
  rw [bytes?, single, readAll?, (rowBytes?_spaced hne hcells).1]
  cases readAll? cellBytes? cells with
  | none => rfl
  | some read => simp [readAll?]

/-- Markers at the ends of rows change nothing in what the rows give. -/
theorem readAll?_markRows {marker : Text} {rows : List Text}
    (h : ∀ row ∈ rows, rowBytes? (row ++ marker) = rowBytes? row) :
    readAll? rowBytes? (markRows marker rows) = readAll? rowBytes? rows := by
  induction rows with
  | nil => rfl
  | cons row rest ih =>
      cases rest with
      | nil => rfl
      | cons next rest =>
          have hrest := ih fun other hother => h other (List.mem_cons_of_mem _ hother)
          rw [markRows, readAll?, hrest, h row List.mem_cons_self]
          rfl

/-! ### Rows of equal length -/

section CutRows

variable {α β : Type} {perRow : Nat}

/-- Rows are cut by places, whatever stands there. -/
theorem cutRows_map (f : α → β) (count : Nat) (xs : List α) :
    cutRows perRow count (xs.map f) = (cutRows perRow count xs).map (List.map f) := by
  induction count generalizing xs with
  | zero => rfl
  | succ count ih => rw [cutRows, cutRows, ← List.map_drop, ih, ← List.map_take, List.map_cons]

/-- Enough rows hold everything. -/
theorem flatten_cutRows {count : Nat} {xs : List α} (h : xs.length ≤ count * perRow) :
    (cutRows perRow count xs).flatten = xs := by
  induction count generalizing xs with
  | zero =>
      rw [Nat.zero_mul, Nat.le_zero, List.length_eq_zero_iff] at h
      rw [h]
      rfl
  | succ count ih =>
      have hrest : (xs.drop perRow).length ≤ count * perRow := by
        rw [Nat.succ_mul] at h
        rw [List.length_drop]
        omega
      rw [cutRows, List.flatten_cons, ih hrest, List.take_append_drop]

/-- If the rows before the last do not hold everything, no row is empty. -/
theorem ne_nil_of_mem_cutRows (hperRow : 0 < perRow) {count : Nat} {xs : List α}
    (h : count * perRow < xs.length + perRow) {row : List α}
    (hrow : row ∈ cutRows perRow count xs) : row ≠ [] := by
  induction count generalizing xs with
  | zero => exact nomatch hrow
  | succ count ih =>
      rw [Nat.succ_mul] at h
      rw [cutRows, List.mem_cons] at hrow
      rcases hrow with rfl | hrest
      · rw [ne_eq, ← List.length_eq_zero_iff, List.length_take]
        have hlength : 0 < xs.length := by omega
        omega
      · refine ih ?_ hrest
        rw [List.length_drop]
        omega

/-- The number of rows is just enough. -/
theorem rowCount_bounds (hperRow : 0 < perRow) (count : Nat) :
    count ≤ rowCount perRow count * perRow ∧ rowCount perRow count * perRow < count + perRow := by
  have hbelow := Nat.div_mul_le_self (count + perRow - 1) perRow
  have habove := Nat.lt_div_mul_add (a := count + perRow - 1) hperRow
  unfold rowCount
  omega

end CutRows

/-! ### Items -/

/-- A row of values is read as their bytes, with or without a marker. -/
theorem DataType.rowBytes?_cellTexts (type : DataType) {values : List (Option Int)}
    (hne : values ≠ []) :
    rowBytes? (spaced (values.map type.cellText)) = some (values.flatMap type.cellBytes) ∧
      rowBytes? (spaced (values.map type.cellText) ++ type.marker) =
        rowBytes? (spaced (values.map type.cellText)) := by
  have hcells : ∀ cell ∈ values.map type.cellText, IsCell cell := by
    intro cell hcell
    obtain ⟨v, -, rfl⟩ := List.mem_map.mp hcell
    exact type.isCell_cellText v
  obtain ⟨hread, hmarker⟩ := rowBytes?_spaced (mt List.map_eq_nil_iff.mp hne) hcells
  refine ⟨?_, hmarker type⟩
  rw [hread, readAll?_map]
  exact readAll?_eq_some fun v _ => type.cellBytes?_cellText v

/-- **The text of a definition is read as its bytes.** -/
theorem Definition.bytes?_hex (d : Definition) : d.hex.bytes? = some d.bytes := by
  have hperRow : 0 < d.type.cellsPerRow := by cases d.type <;> decide
  obtain ⟨henough, hneeded⟩ := rowCount_bounds hperRow d.values.length
  -- the rows of cells are the rows of values, each value as its cell
  let valueRows := cutRows d.type.cellsPerRow (rowCount d.type.cellsPerRow d.values.length) d.values
  have hrows : d.cellRows = valueRows.map (List.map d.type.cellText) := cutRows_map _ _ _
  have hall : valueRows.flatten = d.values := flatten_cutRows henough
  have hne : ∀ values ∈ valueRows, values ≠ [] := fun _ => ne_nil_of_mem_cutRows hperRow hneeded
  have hmarked : ∀ row ∈ d.cellRows.map spaced,
      rowBytes? (row ++ d.type.marker) = rowBytes? row := by
    intro row hrow
    rw [hrows, List.map_map] at hrow
    obtain ⟨values, hvalues, rfl⟩ := List.mem_map.mp hrow
    exact (d.type.rowBytes?_cellTexts (hne values hvalues)).2
  calc d.hex.bytes?
      = readAll? rowBytes? (d.cellRows.map spaced) := readAll?_markRows hmarked
    _ = readAll? (fun values => rowBytes? (spaced (values.map d.type.cellText))) valueRows := by
        rw [hrows, readAll?_map, readAll?_map]
    _ = some (valueRows.flatMap fun values => values.flatMap d.type.cellBytes) :=
        readAll?_eq_some fun values hvalues => (d.type.rowBytes?_cellTexts (hne values hvalues)).1
    _ = some d.bytes := by rw [← List.flatMap_assoc, List.flatMap_id', hall, bytes]

namespace Instruction

/-- The text of up to four bytes is read as these bytes. -/
theorem bytes?_hexOf {bytes : List UInt8} (hne : bytes ≠ []) (hlength : bytes.length ≤ 4) :
    (CodeText.single (hexOf bytes)).bytes? = some bytes := by
  have hbyte : ∀ b : UInt8, IsCell (hexByte b) := fun b => isCell_hexDigits .byte b.toNat
  match bytes, hne, hlength with
  | [a], _, _ =>
      have hread := CodeText.bytes?_single [hexByte a] (by simp) (by simp [hbyte])
      simpa [hexOf, spaced, readAll?, cellBytes?_hexByte] using hread
  | [a, b], _, _ =>
      have hread := CodeText.bytes?_single [hexByte a, hexByte b] (by simp)
        (by simp [hbyte])
      simpa [hexOf, readAll?, cellBytes?_hexByte] using hread
  | [a, b, c], _, _ =>
      have hread := CodeText.bytes?_single [hexByte a, hexByte b, hexByte c] (by simp)
        (by simp [hbyte])
      simpa [hexOf, readAll?, cellBytes?_hexByte] using hread
  | [a, b, low, high], _, _ =>
      let word := Numeral.hexDigits 4 (low.toNat + 256 * high.toNat)
      have hword : IsCell word := isCell_hexDigits .word _
      have hread := CodeText.bytes?_single [hexByte a, hexByte b, word] (by simp)
        (by simp [hbyte, hword])
      simpa [hexOf, readAll?, cellBytes?_hexByte, word, cellBytes?_word] using hread

/-- An instruction has one row of text, that of its bytes. -/
theorem hex_of_encode {i : Instruction} {names : SymbolTable} {e : Encoded}
    (h : i.encode names = .ok e) : e.hex = .single (hexOf e.bytes) := by
  unfold encode at h
  cases hbytes : i.bytes names with
  | error d =>
      rw [hbytes] at h
      cases h
  | ok bs =>
      rw [hbytes] at h
      cases h
      rfl

end Instruction

/-! ### Programs -/

namespace Layout

/-- The text of an item of a program is read as its bytes. -/
theorem bytes?_of_encode {source : Text} {n : Nat} {item : Item} {e : Encoded}
    (hitem : (n, item) ∈ (ofSource source).items)
    (hcode : item.encode (ofSource source).names = .ok e) : e.hex.bytes? = some e.bytes := by
  cases item with
  | data d =>
      cases hcode
      exact d.bytes?_hex
  | instruction i =>
      obtain ⟨r, -, m, -, -, hformed, -⟩ := formed_of_mem_items hitem
      obtain ⟨op1, p, q, -, -, -, -, -, hbytes⟩ := hformed.exists_composed hcode
      rw [Instruction.hex_of_encode hcode, hbytes]
      refine Instruction.bytes?_hexOf (List.cons_ne_nil _ _) ?_
      cases htail : q.tail <;> simp [Instruction.join, htail]

/-- **The listing shows the code.**  Of any source, with or without errors: a
line has a text exactly if its item is encoded, and it is the text of that
item; the lines ascend; each text is read as the bytes of its item; and all
texts, read line after line, give the code of the program. -/
theorem hex_reads_back (source : Text) :
    let l := ofSource source
    (∀ n text, l.image.hex.lookup n = some text ↔
      ∃ item e, l.items.lookup n = some item ∧ item.encode l.names = .ok e ∧ e.hex = text) ∧
    Ascending l.image.hex ∧
    (∀ n item e, l.items.lookup n = some item → item.encode l.names = .ok e →
      e.hex.bytes? = some e.bytes) ∧
    readAll? (fun entry => entry.2.bytes?) l.image.hex = some l.image.body := by
  intro l
  have hitems : Ascending l.items := pairwise_items source
  refine ⟨?_, Image.ascending_hex hitems, ?_, ?_⟩
  · intro n text
    have hlookup : l.image.hex.lookup n = (l.items.lookup n).bind (Item.hex? l.names) :=
      Image.lookup_hex hitems n
    rw [hlookup, Option.bind_eq_some_iff]
    simp only [Item.hex?_eq_some_iff]
    constructor
    · rintro ⟨item, hitem, e, hcode, htext⟩
      exact ⟨item, e, hitem, hcode, htext⟩
    · rintro ⟨item, e, hitem, hcode, htext⟩
      exact ⟨item, hitem, e, hcode, htext⟩
  · intro n item e hitem hcode
    exact bytes?_of_encode (hitems.lookup_eq_some_iff.mp hitem) hcode
  · have hread : ∀ entry ∈ l.image.encoded, entry.2.hex.bytes? = some entry.2.bytes := by
      rintro ⟨n, e⟩ hentry
      obtain ⟨item, hitem, hcode⟩ := Image.exists_of_mem_encoded hentry
      exact bytes?_of_encode hitem hcode
    rw [Image.hex, readAll?_map]
    exact readAll?_eq_some hread

/-- A load whose name is unknown has no text; words and bytes run over their
rows, with a marker each and an absent value, and are read back. -/
theorem hex_reads_back_two_rows :
    let l := ofSource
      "S SEGMENT\nMOV AX, W\nMOV BX, Q\nW DW 1,2,?,4,-1\nB DB 1,2,3,4,5,6,7,?\nS ENDS".toList
    l.image.hex.map (fun entry => (entry.1, entry.2.rows)) =
      [(2, ["8B 06 0008".toList]),
        (4, ["0001 0002 ???? 0004 +".toList, "FFFF".toList]),
        (5, ["01 02 03 04 05 06 07+".toList, "??".toList])] ∧
    (∃ item e, l.items.lookup 4 = some item ∧ item.encode l.names = .ok e ∧
      e.hex.bytes? = some e.bytes) ∧
    readAll? (fun entry => entry.2.bytes?) l.image.hex = some l.image.body := by
  intro l
  obtain ⟨hlines, -, hitem, hcode⟩ := hex_reads_back
    "S SEGMENT\nMOV AX, W\nMOV BX, Q\nW DW 1,2,?,4,-1\nB DB 1,2,3,4,5,6,7,?\nS ENDS".toList
  have htext : l.image.hex.lookup 4 =
      some ⟨["0001 0002 ???? 0004 +".toList, "FFFF".toList], 8⟩ := by decide
  obtain ⟨item, e, hlookup, hencode, -⟩ := (hlines 4 _).mp htext
  exact ⟨by decide, ⟨item, e, hlookup, hencode, hitem 4 item e hlookup hencode⟩, hcode⟩

end Layout

end SegmentAssembler
