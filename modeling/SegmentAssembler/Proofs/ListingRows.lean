import SegmentAssembler.Proofs.EndOfProgram
import SegmentAssembler.Proofs.HexReading
import SegmentAssembler.Proofs.RecordReading
import SegmentAssembler.Proofs.ReportOrder
import SegmentAssembler.Proofs.SpelledRuns
import SegmentAssembler.Proofs.TableConsistency
import SegmentAssembler.Proofs.WordRewriting

/-!
# The rows of a listing

The listing is text, and its reader has to find the rows in it again.  No text
that goes into a row brings a line feed of its own: neither the source lines,
nor code, nor names, nor what a diagnostic quotes.  So the line feeds of a
listing are those between its rows, and the rows are, from above,

    for each source line up to the end      1 + the rows that continue its code
    if a name is declared                   4 + the number of names
    if there is a diagnostic                2 + the number of diagnostics

* `OneRow` — a text without a line feed;
* `spelling_sameRow` — the words of a source are such texts, and therefore all
  that its report quotes (`Layout.oneRow_message`);
* `Item.oneRow_hex`, `Layout.code_of_hex` — so is the text of code; no line with
  code lacks a row for it or an address;
* `Layout.splitOn_listing` — the listing falls apart into its rows;
* `listing_falls_into_rows` — and which rows these are.
-/

namespace SegmentAssembler

/-- A text that stays on one row. -/
def OneRow (t : Text) : Prop := '\n' ∉ t

instance (t : Text) : Decidable (OneRow t) := inferInstanceAs (Decidable ('\n' ∉ t))

theorem oneRow_nil : OneRow [] := List.not_mem_nil

/-- Texts on one row stay on one row together. -/
theorem OneRow.append {s t : Text} (hs : OneRow s) (ht : OneRow t) : OneRow (s ++ t) := by
  intro hmem
  rcases List.mem_append.mp hmem with hmem | hmem
  · exact hs hmem
  · exact ht hmem

theorem OneRow.cons {c : Char} {t : Text} (hc : '\n' ≠ c) (ht : OneRow t) : OneRow (c :: t) := by
  intro hmem
  rcases List.mem_cons.mp hmem with heq | hmem
  · exact hc heq
  · exact ht hmem

/-- Characters of a kind that a line feed is not of stay on one row. -/
theorem oneRow_of_forall {t : Text} {p : Char → Bool} (h : ∀ c ∈ t, p c = true)
    (hp : p '\n' = false) : OneRow t := by
  intro hmem
  rw [h _ hmem] at hp
  cases hp

/-- A text that is written out is looked through as the list of its characters. -/
theorem oneRow_literal {t : Text} (h : OneRow t) : OneRow (String.ofList t).toList := by
  rwa [String.toList_ofList]

theorem oneRow_padRight (width : Nat) {t : Text} (h : OneRow t) :
    OneRow (Text.padRight width t) :=
  h.append fun hmem => absurd (List.mem_replicate.mp hmem).2 (by decide)

theorem oneRow_of_isName {t : Text} (h : isName t = true) : OneRow t :=
  oneRow_of_forall (isNamePart_of_mem h) (by decide)

/-! ### Numbers -/

namespace Numeral

theorem oneRow_decimal (n : Nat) : OneRow (decimal n) :=
  oneRow_of_forall (p := Char.isDigit)
    (fun _ hc => Nat.isDigit_of_mem_toDigits (by decide) (by decide) hc) (by decide)

theorem oneRow_signedDecimal (v : Int) : OneRow (signedDecimal v) := by
  cases v with
  | ofNat n => exact oneRow_decimal n
  | negSucc n => exact (oneRow_decimal (n + 1)).cons (by decide)

theorem isDigit_of_mem_hexDigits {width n : Nat} {c : Char} (h : c ∈ hexDigits width n) :
    isDigit 16 c = true :=
  decide_eq_true (digitValue_lt_of_mem_hexDigits h)

theorem oneRow_hexDigits (width n : Nat) : OneRow (hexDigits width n) :=
  oneRow_of_forall (fun _ => isDigit_of_mem_hexDigits) (by decide)

end Numeral

/-! ### Messages -/

/-- A message stays on one row if what it quotes does. -/
theorem Diagnostic.oneRow_message {d : Diagnostic} (h : ∀ t, d.text? = some t → OneRow t) :
    OneRow d.message := by
  have htype : ∀ type : DataType, OneRow type.name := by
    intro type
    cases type <;> decide
  cases d with
  | outOfRange v type | displacementRange v type =>
      exact (((oneRow_literal (by decide)).append (Numeral.oneRow_signedDecimal v)).append
        (oneRow_literal (by decide))).append (htype type)
  | negativeAddress v | segmentLength v =>
      exact (oneRow_literal (by decide)).append (Numeral.oneRow_signedDecimal v)
  | invalidSegmentId t | segmentNameMismatch t | unexpectedDirective t | unexpectedWord t
  | invalidLabelId t | duplicateId t | undeclared t | undeclaredTarget t | badExpression t =>
      exact (oneRow_literal (by decide)).append (h t rfl)
  | _ => exact oneRow_literal (by decide)

/-! ### Words and lines of a source -/

/-- What holds of all characters of a text holds of those that were read. -/
theorem Reader.forall_finished_feed {P : Char → Prop} {r : Reader} {c : Char} (hc : P c)
    (h : ∀ w ∈ r.finished, ∀ d ∈ w, P d) : ∀ w ∈ (r.feed c).finished, ∀ d ∈ w, P d := by
  obtain ⟨complete, head⟩ := r
  cases head with
  | gap =>
      simp only [feed]
      split
      · exact h
      · split
        · exact h
        · simp only [finished, List.reverse_singleton, List.mem_cons]
          rintro w (rfl | hw) d hd
          · rwa [List.mem_singleton.mp hd]
          · exact h w hw d hd
  | comment =>
      simp only [feed]
      split <;> exact h
  | word read =>
      simp only [feed]
      split
      · exact h
      · split
        · exact h
        · simp only [finished, List.mem_cons, forall_eq_or_imp, List.mem_reverse] at h ⊢
          refine ⟨⟨hc, h.1⟩, h.2⟩

/-- **The characters of a word are characters of the text.** -/
theorem mem_of_mem_words {t w : Text} (hw : w ∈ words t) {c : Char} (hc : c ∈ w) : c ∈ t := by
  have general : ∀ (s : Text) (r : Reader), (∀ d ∈ s, d ∈ t) →
      (∀ w ∈ r.finished, ∀ d ∈ w, d ∈ t) →
      ∀ w ∈ (s.foldl Reader.feed r).finished, ∀ d ∈ w, d ∈ t := by
    intro s
    induction s with
    | nil =>
        intro r _ hr
        exact hr
    | cons d s ih =>
        intro r hs hr
        exact ih _ (fun d hd => hs d (List.mem_cons_of_mem _ hd))
          (Reader.forall_finished_feed (hs d List.mem_cons_self) hr)
  exact general t {} (fun _ hd => hd) nofun w (List.mem_reverse.mp hw) c hc

/-- A source line has no line feed left. -/
theorem oneRow_of_mem_splitLines {source : Text} {line : Line} (h : line ∈ splitLines source) :
    OneRow line.text := (isLine_of_mem_splitLines h).newline_not_mem

/-- A text on one row, compared with itself. -/
def SameRow (x y : Text) : Prop := x = y ∧ OneRow x

/-- **All that the scan puts into a report stays on one row.** -/
theorem spelling_sameRow : Spelling SameRow where
  letters h := by rw [h.1]
  dropLast {x y} h := by
    obtain ⟨rfl, hrow⟩ := h
    exact ⟨rfl, fun hmem => hrow (List.mem_of_mem_dropLast hmem)⟩
  nil := ⟨rfl, oneRow_nil⟩
  directive d := ⟨rfl, by cases d <;> decide⟩
  capital {id} h := by
    refine ⟨rfl, oneRow_of_isName ?_⟩
    rw [Text.upper_of_isName h, isName_asciiUpper]
    exact h

/-- The words of a source stay on one row each. -/
theorem codeLines_sameRow (source : Text) :
    List.Forall₂ (CodeLine.Respelled SameRow) (codeLines (splitLines source))
      (codeLines (splitLines source)) := by
  rw [List.forall₂_same]
  intro code hcode
  obtain ⟨line, hline, hwords⟩ := List.mem_filterMap.mp hcode
  have hrow := oneRow_of_mem_splitLines hline
  have hword : ∀ w ∈ words line.text, SameRow w w := fun w hw =>
    ⟨rfl, fun hmem => hrow (mem_of_mem_words hw hmem)⟩
  unfold Line.code? at hwords
  split at hwords
  · cases hwords
  · rename_i head rest hsplit
    cases hwords
    rw [hsplit] at hword
    refine ⟨rfl, hword head List.mem_cons_self, List.forall₂_same.mpr fun w hw => ?_⟩
    exact hword w (List.mem_cons_of_mem _ hw)

/-! ### Code -/

/-- Members with their indices, beside the members. -/
theorem forall₂_zipIdx {α : Type} (xs : List α) (k : Nat) :
    List.Forall₂ (fun entry x => entry.1 = x) (xs.zipIdx k) xs := by
  induction xs generalizing k with
  | nil => exact .nil
  | cons x xs ih => exact .cons rfl (ih (k + 1))

theorem oneRow_of_isCell {cell : Text} (h : IsCell cell) : OneRow cell :=
  oneRow_of_forall h.chars (by decide)

theorem oneRow_spaced {cells : List Text} (h : ∀ cell ∈ cells, IsCell cell) :
    OneRow (spaced cells) := by
  induction cells with
  | nil => exact oneRow_nil
  | cons cell rest ih =>
      have hcell := oneRow_of_isCell (h cell List.mem_cons_self)
      have hrest := ih fun other hother => h other (List.mem_cons_of_mem _ hother)
      cases rest with
      | nil =>
          rw [spaced, List.intercalate_singleton]
          exact hcell
      | cons next rest =>
          rw [spaced, List.intercalate_cons_cons]
          exact (hcell.append (by decide)).append hrest

/-- Marking rows makes them neither more nor fewer. -/
theorem length_markRows (marker : Text) (rows : List Text) :
    (markRows marker rows).length = rows.length := by
  induction rows with
  | nil => rfl
  | cons row rest ih =>
      cases rest with
      | nil => rfl
      | cons next rest => rw [markRows, List.length_cons, ih, ← List.length_cons]

/-- A marked row is still one row. -/
theorem oneRow_of_mem_markRows {marker : Text} (hmarker : OneRow marker) {rows : List Text}
    (h : ∀ row ∈ rows, OneRow row) : ∀ row ∈ markRows marker rows, OneRow row := by
  induction rows with
  | nil => exact h
  | cons row rest ih =>
      cases rest with
      | nil => exact h
      | cons next rest =>
          have hrest := ih fun other hother => h other (List.mem_cons_of_mem _ hother)
          intro marked hmarked
          rcases List.mem_cons.mp hmarked with rfl | hmarked
          · exact (h row List.mem_cons_self).append hmarker
          · exact hrest marked hmarked

/-- Cells are cut into as many rows as were asked for. -/
theorem length_cutRows {α : Type} (perRow count : Nat) (xs : List α) :
    (cutRows perRow count xs).length = count := by
  induction count generalizing xs with
  | zero => rfl
  | succ count ih => rw [cutRows, List.length_cons, ih]

namespace Definition

/-- The text of a definition stays on its rows. -/
theorem oneRow_hex (d : Definition) : ∀ row ∈ d.hex.rows, OneRow row := by
  have hmarker : OneRow d.type.marker := by cases d.type <;> decide
  refine oneRow_of_mem_markRows hmarker fun row hrow => ?_
  rw [cellRows, cutRows_map, List.map_map] at hrow
  obtain ⟨values, -, rfl⟩ := List.mem_map.mp hrow
  refine oneRow_spaced fun cell hcell => ?_
  obtain ⟨v, -, rfl⟩ := List.mem_map.mp hcell
  exact d.type.isCell_cellText v

/-- A definition with a value has a row of text. -/
theorem rows_ne_nil {d : Definition} (h : d.values ≠ []) : d.hex.rows ≠ [] := by
  have hperRow : 0 < d.type.cellsPerRow := by cases d.type <;> decide
  have henough := (rowCount_bounds hperRow d.values.length).1
  have hlength : d.hex.rows.length = rowCount d.type.cellsPerRow d.values.length := by
    rw [hex, length_markRows, List.length_map, cellRows, length_cutRows]
  intro hnil
  rw [hnil, List.length_nil] at hlength
  rw [← hlength, Nat.zero_mul] at henough
  exact h (List.eq_nil_of_length_eq_zero (Nat.le_zero.mp henough))

end Definition

/-- The text of an instruction stays on one row, however many bytes it has. -/
theorem Instruction.oneRow_hexOf (bytes : List UInt8) : OneRow (hexOf bytes) := by
  have hbyte : ∀ b : UInt8, IsCell (hexByte b) := fun b => isCell_hexDigits .byte b.toNat
  match bytes with
  | [] => exact oneRow_nil
  | [a] => exact oneRow_of_isCell (hbyte a)
  | [a, b] => exact oneRow_spaced (by simp [hbyte])
  | [a, b, c] => exact oneRow_spaced (by simp [hbyte])
  | a :: b :: low :: high :: rest =>
      have hword : IsCell (Numeral.hexDigits 4 (low.toNat + 256 * high.toNat)) :=
        isCell_hexDigits .word _
      exact oneRow_spaced (by simp [hbyte, hword])

/-- **The text of an item stays on its rows.** -/
theorem Item.oneRow_hex {item : Item} {names : SymbolTable} {e : Encoded}
    (h : item.encode names = .ok e) : ∀ row ∈ e.hex.rows, OneRow row := by
  cases item with
  | instruction i =>
      rw [Instruction.hex_of_encode h]
      intro row hrow
      rw [List.mem_singleton.mp hrow]
      exact Instruction.oneRow_hexOf _
  | data d =>
      cases h
      exact d.oneRow_hex

/-- The row of a line begins with its number and ends with its text. -/
theorem Listing.exists_sourceRow (address : Option Nat) (hex : Option CodeText) (line : Line) :
    ∃ middle, sourceRow address hex line =
      Numeral.decimal line.number ++ ' ' :: middle ++ "| ".toList ++ line.text := by
  have hblank : ∀ (k : Nat) (t : Text),
      List.replicate k ' ' ++ ' ' :: t = ' ' :: (List.replicate k ' ' ++ t) := by
    intro k t
    rw [← List.singleton_append, ← List.append_assoc, ← List.replicate_succ', List.replicate_succ]
    rfl
  have hbar : " | ".toList = ' ' :: "| ".toList := rfl
  let addressColumn := Text.padRight 4 ((address.map (Numeral.hexDigits 4)).getD [])
  let codeColumn := Text.padRight 12 ((hex.bind fun h => h.rows.head?).getD [])
  refine ⟨List.replicate (3 - (Numeral.decimal line.number).length) ' ' ++ "| ".toList
    ++ addressColumn ++ " | ".toList ++ codeColumn, ?_⟩
  simp only [sourceRow, addressColumn, codeColumn, Text.padRight, List.append_assoc, hbar,
    List.cons_append, hblank]

namespace Layout

variable {source : Text}

/-- Data has a value. -/
theorem values_ne_nil {n : Nat} {d : Definition} (h : (n, .data d) ∈ (ofSource source).items) :
    d.values ≠ [] := by
  obtain ⟨r, hr, -, hitem⟩ := mem_items_iff.mp h
  have hadmits := admits_of_mem_records hr
  generalize r.verdict.effect = e at hadmits hitem
  cases hadmits with
  | @defined id type words =>
      cases hitem
      intro hnil
      have hlength := length_definedValues type words
      rw [show definedValues type words = [] from hnil, List.length_nil] at hlength
      omega
  | _ => cases hitem

/-- **Code has its rows and its address.** -/
theorem code_of_hex {n : Nat} {text : CodeText}
    (h : (ofSource source).image.hex.lookup n = some text) :
    text.rows ≠ [] ∧ (∃ a, (ofSource source).addressAt? n = some a) ∧
      ∀ row ∈ text.rows, OneRow row := by
  rw [image, Image.lookup_hex (pairwise_items source), Option.bind_eq_some_iff] at h
  obtain ⟨item, hlookup, hhex⟩ := h
  have hitem := (Ascending.lookup_eq_some_iff (pairwise_items source)).mp hlookup
  obtain ⟨e, hcode, rfl⟩ := Item.hex?_eq_some_iff.mp hhex
  refine ⟨?_, ?_, Item.oneRow_hex hcode⟩
  · cases item with
    | instruction i =>
        rw [Instruction.hex_of_encode hcode]
        exact List.cons_ne_nil _ _
    | data d =>
        cases hcode
        exact Definition.rows_ne_nil (values_ne_nil hitem)
  · obtain ⟨r, hr, rfl, heffect⟩ := mem_items_iff.mp hitem
    exact ⟨_, addressAt?_of_item hr heffect⟩

/-- What the report says stays on one row. -/
theorem oneRow_message (severity : Severity) {record : LineRecord}
    (h : record ∈ Report.select severity ((ofSource source).findings ++
      (ofSource source).image.findings)) : OneRow record.2.message := by
  have hlayout := spelling_sameRow.respelled_ofSource (codeLines_sameRow source) rfl
  have hsame := List.forall₂_same.mp (Report.rel_select severity hlayout.findings) record h
  refine Diagnostic.oneRow_message fun t ht => ?_
  have htext := hsame.2.text
  rw [ht] at htext
  cases htext with
  | some hrow => exact hrow.2

/-! ### Rows of source lines -/

/-- The rows on which the text of a line goes on. -/
def continuations (l : Layout) (n : Nat) : List Text :=
  ((l.image.hex.lookup n).map fun text => text.rows.drop 1).getD []

/-- The rows of a source line: one that begins with its number and ends with its
text, and one for each row on which its code goes on. -/
structure ShownAs (l : Layout) (line : Line) (rows : List Text) : Prop where
  first : ∃ middle, rows.head? =
    some (Numeral.decimal line.number ++ ' ' :: middle ++ "| ".toList ++ line.text)
  further : List.Forall₂ (fun row code => ∃ address, row =
    " \t".toList ++ address ++ "      ".toList ++ code) rows.tail (l.continuations line.number)

/-- The source lines that the listing shows. -/
def shown (l : Layout) : List Line := l.lines.take l.lastLine

/-- The listing shows the lines up to the end of the program. -/
theorem shownLines_listing (source : Text) :
    (ofSource source).listing.shownLines = (ofSource source).shown := by
  have hlines : (ofSource source).listing.lines = splitLines source := rfl
  have hend : (ofSource source).listing.endLine = SegmentAssembler.endLine (splitLines source) :=
    rfl
  rw [Listing.shownLines, hlines, hend]
  cases hk : SegmentAssembler.endLine (splitLines source) with
  | none =>
      have hnone : (splitLines source).findIdx? (fun line => some line.number == none) = none := by
        rw [List.findIdx?_eq_none_iff]
        intro line _
        rfl
      have hlast : (ofSource source).lastLine = (splitLines source).length := by
        rw [lastLine, show (ofSource source).endLine = none from hk]
        rfl
      rw [hnone, shown, hlast]
      exact List.take_length.symm
  | some k =>
      -- the line of number `k` stands in the place before `k`
      obtain ⟨line, hline, hnumber⟩ := exists_line_of_endLine hk
      obtain ⟨i, hi⟩ := List.getElem?_of_mem hline
      have hplace := number_of_getElem?_splitLines hi
      obtain ⟨hlt, hget⟩ := List.getElem?_eq_some_iff.mp hi
      have hindex : (splitLines source).findIdx? (fun line => some line.number == some k) =
          some i := by
        rw [List.findIdx?_eq_some_iff_getElem]
        refine ⟨hlt, ?_, ?_⟩
        · rw [hget, hnumber]
          exact beq_self_eq_true _
        · intro j hj
          have hbefore : j < (splitLines source).length := Nat.lt_trans hj hlt
          have hother := number_of_getElem?_splitLines (List.getElem?_eq_getElem hbefore)
          simp only [beq_iff_eq, Option.some.injEq]
          omega
      have hlast : (ofSource source).lastLine = i + 1 := by
        rw [lastLine_of_endLine (show (ofSource source).endLine = some k from hk)]
        omega
      rw [hindex, shown, hlast]
      rfl

/-- **A source line is shown on its rows.** -/
theorem shownAs_lineRows (source : Text) (line : Line) :
    (ofSource source).ShownAs line ((ofSource source).listing.lineRows line) where
  first := by
    obtain ⟨middle, hrow⟩ := Listing.exists_sourceRow ((ofSource source).addressAt? line.number)
      ((ofSource source).image.hex.lookup line.number) line
    exact ⟨middle, congrArg some hrow⟩
  further := by
    have hrows : ((ofSource source).listing.lineRows line).tail =
        Listing.continuationRows ((ofSource source).addressAt? line.number)
          ((ofSource source).image.hex.lookup line.number) := rfl
    rw [hrows, continuations]
    cases htext : (ofSource source).image.hex.lookup line.number with
    | none =>
        cases (ofSource source).addressAt? line.number <;> exact .nil
    | some text =>
        obtain ⟨-, ⟨a, haddress⟩, -⟩ := code_of_hex htext
        rw [haddress, Listing.continuationRows, Option.map_some, Option.getD_some,
          List.forall₂_map_left_iff]
        exact (forall₂_zipIdx _ 1).imp fun entry code hcode => ⟨_, by rw [← hcode]; rfl⟩

/-- A source line takes one row, and one for each row on which its code goes on. -/
theorem ShownAs.length_eq {l : Layout} {line : Line} {rows : List Text} (h : l.ShownAs line rows) :
    rows.length = 1 + (l.continuations line.number).length := by
  obtain ⟨middle, hfirst⟩ := h.first
  have hfurther := h.further.length_eq
  cases rows with
  | nil => cases hfirst
  | cons row rest =>
      rw [List.tail_cons] at hfurther
      rw [List.length_cons, hfurther, Nat.add_comm]

/-- The rows of a source line are rows of the listing. -/
theorem oneRow_lineRows {line : Line} (hline : line ∈ splitLines source) :
    ∀ row ∈ (ofSource source).listing.lineRows line, OneRow row := by
  have hhex : ∀ text, (ofSource source).image.hex.lookup line.number = some text →
      ∀ row ∈ text.rows, OneRow row := fun text htext => (code_of_hex htext).2.2
  have hrows : (ofSource source).listing.lineRows line =
      Listing.sourceRow ((ofSource source).addressAt? line.number)
          ((ofSource source).image.hex.lookup line.number) line ::
        Listing.continuationRows ((ofSource source).addressAt? line.number)
          ((ofSource source).image.hex.lookup line.number) := rfl
  rw [hrows]
  generalize (ofSource source).image.hex.lookup line.number = hex at hhex
  generalize (ofSource source).addressAt? line.number = address
  intro row hrow
  rcases List.mem_cons.mp hrow with rfl | hrow
  · have haddress : OneRow ((address.map (Numeral.hexDigits 4)).getD []) := by
      cases address with
      | none => exact oneRow_nil
      | some a => exact Numeral.oneRow_hexDigits 4 a
    have hcode : OneRow ((hex.bind fun h => h.rows.head?).getD []) := by
      cases hex with
      | none => exact oneRow_nil
      | some text =>
          cases hhead : text.rows.head? with
          | none => simp [hhead, oneRow_nil]
          | some row => simpa [hhead] using hhex text rfl row (List.mem_of_head? hhead)
    have hnumber := oneRow_padRight 3 (Numeral.oneRow_decimal line.number)
    have htext := oneRow_of_mem_splitLines hline
    exact (((((hnumber.append (by decide)).append (oneRow_padRight 4 haddress)).append
      (by decide)).append (oneRow_padRight 12 hcode)).append (by decide)).append htext
  · cases hex with
    | none => cases address <;> cases hrow
    | some text =>
        cases address with
        | none => cases hrow
        | some base =>
            obtain ⟨entry, hentry, rfl⟩ := List.mem_map.mp hrow
            have hmem : entry.1 ∈ text.rows.drop 1 := by
              rw [← List.zipIdx_map_fst 1 (text.rows.drop 1)]
              exact List.mem_map_of_mem hentry
            have hcode := hhex text rfl entry.1 (List.mem_of_mem_drop hmem)
            exact (((by decide : OneRow " \t".toList).append
              (Numeral.oneRow_hexDigits _ _)).append (by decide)).append hcode

/-! ### Rows of names and diagnostics -/

/-- The rows of the names are rows of the listing. -/
theorem oneRow_nameRows (source : Text) :
    ∀ row ∈ (ofSource source).listing.nameRows, OneRow row := by
  have hlower : ∀ n < 128, Numeral.isDigit 16 (Char.ofNat n) = true →
      '\n' ≠ (Char.ofNat n).toLower := by decide
  have hnames : (ofSource source).listing.names = (ofSource source).names := rfl
  have hheading : OneRow Listing.nameHeading :=
    ((oneRow_padRight 16 (oneRow_literal (by decide))).append
      (oneRow_padRight 16 (oneRow_literal (by decide)))).append (oneRow_literal (by decide))
  intro row hrow
  unfold Listing.nameRows at hrow
  split at hrow
  · cases hrow
  · simp only [List.mem_cons, List.mem_map] at hrow
    rcases hrow with rfl | rfl | rfl | rfl | ⟨entry, hentry, rfl⟩
    · exact oneRow_nil
    · exact oneRow_nil
    · exact oneRow_literal (by decide)
    · exact hheading
    · have hkey : isCapitalName entry.1 = true :=
        isCapitalName_of_mem_keys (List.mem_map_of_mem hentry)
      have hkind : OneRow entry.2.kind.name := by cases entry.2.kind <;> decide
      have hsegment := oneRow_of_isName (isSegmentName_ofSource source).isName
      have haddress : OneRow ((Numeral.hexDigits 4 entry.2.address).map Char.toLower) := by
        intro hmem
        obtain ⟨c, hc, heq⟩ := List.mem_map.mp hmem
        have hrange := Numeral.toNat_of_digitValue_lt (Numeral.digitValue_lt_of_mem_hexDigits hc)
        have hne := hlower c.toNat (by omega)
        rw [Char.ofNat_toNat] at hne
        exact hne (Numeral.isDigit_of_mem_hexDigits hc) heq.symm
      have hkeyRow := oneRow_padRight 16 (oneRow_of_isName (isName_of_isCapitalName hkey))
      exact ((hkeyRow.append (oneRow_padRight 16 hkind)).append hsegment).append
        (haddress.cons (by decide))

end Layout

namespace Listing

/-- The row of an error. -/
def errorRow (r : LineRecord) : Text := diagnosticRow "ОШИБКА".toList r.1 r.2

/-- The row of a warning. -/
def warningRow (r : LineRecord) : Text := diagnosticRow "ПРЕДУПРЕЖДЕНИЕ".toList r.1 r.2

/-- A diagnostic stays on its row if its message does. -/
theorem oneRow_diagnosticRow {title : Text} (htitle : OneRow title) {r : LineRecord}
    (h : OneRow r.2.message) : OneRow (diagnosticRow title r.1 r.2) :=
  (((((by decide : OneRow "| ".toList).append htitle).append (oneRow_literal (by decide))).append
    (Numeral.oneRow_decimal r.1)).append (by decide)).append h

/-- The rows of a log, one for each of its records. -/
theorem logRows_eq (title : Text) (log : LineLog) :
    logRows title log = log.records.map fun r => diagnosticRow title r.1 r.2 := by
  rw [logRows, LineLog.records, List.map_flatMap]
  refine List.flatMap_congr fun entry _ => ?_
  rw [List.map_map]
  rfl

/-- Joining rows puts a line feed in front of all but the first. -/
theorem joinLines_cons (row : Text) (rest : List Text) :
    joinLines (row :: rest) = row ++ rest.flatMap fun row => '\n' :: row := by
  induction rest generalizing row with
  | nil => rw [joinLines, List.intercalate_singleton, List.flatMap_nil, List.append_nil]
  | cons next rest ih =>
      have hnext := ih next
      unfold joinLines at hnext ⊢
      rw [List.intercalate_cons_cons, hnext, List.flatMap_cons, List.append_assoc]
      rfl

/-- A listing with a row is its rows with line feeds in between. -/
theorem text_eq_joinLines {l : Listing} (h : l.sourceRows ≠ []) :
    l.text = joinLines (l.sourceRows ++ (l.nameRows ++ l.diagnosticRows)) := by
  obtain ⟨row, rest, hrows⟩ := List.exists_cons_of_ne_nil h
  have hsource := joinLines_cons row rest
  unfold joinLines at hsource
  rw [text, hrows, hsource, List.cons_append, joinLines_cons, List.append_assoc,
    ← List.flatMap_append]

end Listing

namespace Layout

variable {source : Text}

/-- There is always a line to show. -/
theorem shown_ne_nil (source : Text) : (ofSource source).shown ≠ [] := by
  have hlines : (ofSource source).lines = splitLines source := rfl
  have hne : splitLines source ≠ [] := by
    simp [splitLines, List.splitOn_ne_nil]
  have hpos : 0 < (ofSource source).lastLine := by
    cases hend : (ofSource source).endLine with
    | none =>
        rw [lastLine, hend, Option.getD_none, hlines]
        exact List.length_pos_of_ne_nil hne
    | some k =>
        obtain ⟨line, hline, rfl⟩ := exists_line_of_endLine hend
        rw [lastLine_of_endLine hend]
        exact (number_of_mem_splitLines hline).1
  rw [shown, ne_eq, List.take_eq_nil_iff, not_or]
  exact ⟨Nat.ne_of_gt hpos, hne⟩

/-- The errors in the order of the listing. -/
def listedErrors (l : Layout) : List LineRecord := LineLog.records l.report.errorLines

/-- The warnings in the order of the listing. -/
def listedWarnings (l : Layout) : List LineRecord := LineLog.records l.report.warningLines

/-- There is one row for each diagnostic. -/
theorem length_listed (l : Layout) :
    (l.listedErrors.map Listing.errorRow ++ l.listedWarnings.map Listing.warningRow).length =
      l.report.errorCount + l.report.warnings.length := by
  have herrors := (byLines_byLine l.report.errors).perm.length_eq
  have hwarnings := (byLines_byLine l.report.warnings).perm.length_eq
  rw [List.length_append, List.length_map, List.length_map]
  exact congrArg₂ (· + ·) herrors hwarnings

/-- The block of diagnostics: two empty rows, the errors and the warnings. -/
theorem diagnosticRows_listing (l : Layout) :
    l.listing.diagnosticRows =
      (if l.report.errorCount + l.report.warnings.length = 0 then [] else [[], []])
        ++ (l.listedErrors.map Listing.errorRow ++ l.listedWarnings.map Listing.warningRow) := by
  have hlength := l.length_listed
  have hrows : Listing.logRows "ОШИБКА".toList l.report.errorLines ++
      Listing.logRows "ПРЕДУПРЕЖДЕНИЕ".toList l.report.warningLines =
        l.listedErrors.map Listing.errorRow ++ l.listedWarnings.map Listing.warningRow := by
    rw [Listing.logRows_eq, Listing.logRows_eq]
    rfl
  have hreport : l.listing.report = l.report := rfl
  rw [Listing.diagnosticRows, hreport, hrows]
  by_cases hnone : l.report.errorCount + l.report.warnings.length = 0
  · rw [if_pos hnone, List.eq_nil_of_length_eq_zero (hlength.trans hnone)]
    rfl
  · have hsome : (l.listedErrors.map Listing.errorRow ++
        l.listedWarnings.map Listing.warningRow).isEmpty = false := by
      rw [List.isEmpty_eq_false_iff, ← List.length_pos_iff, hlength]
      omega
    rw [if_neg hnone, hsome]
    rfl

/-- The rows of the diagnostics are rows of the listing. -/
theorem oneRow_diagnosticRows (source : Text) :
    ∀ row ∈ (ofSource source).listing.diagnosticRows, OneRow row := by
  intro row hrow
  rw [diagnosticRows_listing, List.mem_append, List.mem_append, List.mem_map, List.mem_map] at hrow
  rcases hrow with hgap | ⟨r, hr, rfl⟩ | ⟨r, hr, rfl⟩
  · split at hgap
    · cases hgap
    · have hnil : row = [] := by simpa using hgap
      rw [hnil]
      exact oneRow_nil
  · have hmem := (byLines_byLine (ofSource source).report.errors).perm.mem_iff.mp hr
    exact Listing.oneRow_diagnosticRow (oneRow_literal (by decide)) (oneRow_message .error hmem)
  · have hmem := (byLines_byLine (ofSource source).report.warnings).perm.mem_iff.mp hr
    exact Listing.oneRow_diagnosticRow (oneRow_literal (by decide)) (oneRow_message .warning hmem)

/-! ### The listing -/

/-- **The listing falls apart into its rows.** -/
theorem splitOn_listing (source : Text) :
    (ofSource source).listing.text.splitOn '\n' =
      (ofSource source).shown.flatMap (ofSource source).listing.lineRows ++
        ((ofSource source).listing.nameRows ++ (ofSource source).listing.diagnosticRows) := by
  have hsource : (ofSource source).listing.sourceRows =
      (ofSource source).shown.flatMap (ofSource source).listing.lineRows := by
    rw [Listing.sourceRows, shownLines_listing]
  have hne : (ofSource source).listing.sourceRows ≠ [] := by
    obtain ⟨line, rest, hshown⟩ := List.exists_cons_of_ne_nil (shown_ne_nil source)
    rw [hsource, hshown, List.flatMap_cons]
    exact List.cons_ne_nil _ _
  rw [Listing.text_eq_joinLines hne, hsource, joinLines]
  refine List.splitOn_intercalate _ ?_ ?_
  · intro row hrow
    rw [List.mem_append, List.mem_append, List.mem_flatMap] at hrow
    rcases hrow with ⟨line, hline, hrow⟩ | hrow | hrow
    · exact oneRow_lineRows (List.mem_of_mem_take hline) row hrow
    · exact oneRow_nameRows source row hrow
    · exact oneRow_diagnosticRows source row hrow
  · rw [← hsource]
    exact List.append_ne_nil_of_left_ne_nil hne _

/-- The number of rows for source lines. -/
def sourceRowCount (l : Layout) : Nat :=
  (l.shown.map fun line => 1 + (l.continuations line.number).length).sum

/-- The number of rows for names. -/
def nameRowCount (l : Layout) : Nat := if l.names.isEmpty then 0 else 4 + l.names.size

/-- The number of rows for diagnostics. -/
def diagnosticRowCount (l : Layout) : Nat :=
  if l.report.errorCount + l.report.warnings.length = 0 then 0
  else 2 + (l.report.errorCount + l.report.warnings.length)

/-- What the rows of a listing are: blocks of rows, one for each source line that
is shown, then the names, and at the end one row for each diagnostic, errors
before warnings and both by lines. -/
structure HasRows (l : Layout) (rows : List Text) (blocks : List (List Text))
    (errors warnings : List LineRecord) : Prop where
  count : rows.length = l.sourceRowCount + l.nameRowCount + l.diagnosticRowCount
  source : rows.take l.sourceRowCount = blocks.flatten
  blocks : List.Forall₂ l.ShownAs l.shown blocks
  /-- Such a row says what it is, on which line, and the message. -/
  diagnostics : rows.drop (rows.length - (l.report.errorCount + l.report.warnings.length)) =
    errors.map (fun r => "| ".toList ++ "ОШИБКА".toList ++ " Строка ".toList
      ++ Numeral.decimal r.1 ++ ": ".toList ++ r.2.message) ++
    warnings.map (fun r => "| ".toList ++ "ПРЕДУПРЕЖДЕНИЕ".toList ++ " Строка ".toList
      ++ Numeral.decimal r.1 ++ ": ".toList ++ r.2.message)
  errors : ByLines l.report.errors errors
  warnings : ByLines l.report.warnings warnings
  /-- No row of code is left out: where there is code, there is an address. -/
  addressed : ∀ n text, l.image.hex.lookup n = some text →
    text.rows ≠ [] ∧ ∃ a, l.addressAt? n = some a

theorem length_sourceRows (source : Text) :
    ((ofSource source).shown.flatMap (ofSource source).listing.lineRows).length =
      (ofSource source).sourceRowCount := by
  rw [List.length_flatMap, sourceRowCount]
  congr 1
  exact List.map_congr_left fun line _ => (shownAs_lineRows source line).length_eq

/-- The rows of the names, counted: two empty ones, the title and the heading come
first. -/
theorem length_nameRows (l : Layout) : l.listing.nameRows.length = l.nameRowCount := by
  have hnames : l.listing.names = l.names := rfl
  rw [Listing.nameRows, nameRowCount, hnames]
  split
  · rfl
  · simp only [List.length_cons, List.length_map, SymbolTable.size]
    omega

/-- The rows of the diagnostics, counted: two empty ones come first. -/
theorem length_diagnosticRows (l : Layout) :
    l.listing.diagnosticRows.length = l.diagnosticRowCount := by
  rw [diagnosticRows_listing, diagnosticRowCount, List.length_append, l.length_listed]
  split
  · rw [List.length_nil]
    omega
  · rfl

end Layout

/-- **The listing falls into its rows.**  Whatever the source says, cutting the
listing of its assembly at line feeds gives as many rows as there are for source
lines, names and diagnostics: first those of the source lines in their order,
with none of their code left out, and at the end one for each diagnostic. -/
theorem listing_falls_into_rows {source : Text} {a : Assembly} (h : assemble? source = some a) :
    a.report = (Layout.ofSource source).report ∧
      ∃ blocks errors warnings,
        (Layout.ofSource source).HasRows (a.listing.splitOn '\n') blocks errors warnings := by
  obtain rfl := Layout.eq_ofLayout_of_assemble? h
  let l := Layout.ofSource source
  have hsplit : (Assembly.ofLayout l).listing.splitOn '\n' =
      l.shown.flatMap l.listing.lineRows ++ (l.listing.nameRows ++ l.listing.diagnosticRows) :=
    Layout.splitOn_listing source
  have hsource := Layout.length_sourceRows source
  have hnames := Layout.length_nameRows l
  have hdiagnostics := Layout.length_diagnosticRows l
  refine ⟨rfl, l.shown.map l.listing.lineRows, l.listedErrors, l.listedWarnings, ?_⟩
  exact {
    count := by
      rw [hsplit, List.length_append, List.length_append, hsource, hnames, hdiagnostics,
        Nat.add_assoc]
    source := by
      rw [hsplit, ← hsource, List.take_left, List.flatMap_def]
    blocks := by
      rw [List.forall₂_map_right_iff, List.forall₂_same]
      exact fun line _ => Layout.shownAs_lineRows source line
    diagnostics := by
      let gap : List Text :=
        if l.report.errorCount + l.report.warnings.length = 0 then [] else [[], []]
      let front := l.shown.flatMap l.listing.lineRows ++ (l.listing.nameRows ++ gap)
      have hrows : (Assembly.ofLayout l).listing.splitOn '\n' = front ++
          (l.listedErrors.map Listing.errorRow ++ l.listedWarnings.map Listing.warningRow) := by
        rw [hsplit, Layout.diagnosticRows_listing]
        simp only [front, gap, List.append_assoc]
      rw [hrows, List.length_append, l.length_listed, Nat.add_sub_cancel, List.drop_left]
      rfl
    errors := byLines_byLine _
    warnings := byLines_byLine _
    addressed := by
      intro n text htext
      obtain ⟨hrows, haddress, -⟩ := Layout.code_of_hex htext
      exact ⟨hrows, haddress⟩ }

/-- Eight bytes on two rows, a definition without a value, a name that is not
declared and one that is declared twice, in a source with lines below its end:
the name that is missing is found out last and listed first. -/
theorem listing_falls_into_rows_two_errors :
    let source := "S SEGMENT\nX DB 1,2,3,4,5,6,7,8\nY DW\nMOV AX,Z\nX:\nEND\n\n".toList
    let l := Layout.ofSource source
    ∃ a, assemble? source = some a ∧
      l.sourceRowCount = 7 ∧ l.nameRowCount = 6 ∧ l.diagnosticRowCount = 5 ∧
      a.report.errors = [(5, .duplicateId "X".toList), (4, .undeclared "Z".toList)] ∧
      ∃ blocks errors warnings, l.HasRows (a.listing.splitOn '\n') blocks errors warnings := by
  intro source l
  have hassembly := assemble?_of_not_blank (show Text.isAllBlank source = false by decide)
  obtain ⟨-, hrows⟩ := listing_falls_into_rows hassembly
  exact ⟨_, hassembly, by decide, by decide, by decide, by decide, hrows⟩

end SegmentAssembler
