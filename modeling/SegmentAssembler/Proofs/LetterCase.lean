import SegmentAssembler.Proofs.SourceEditing
import SegmentAssembler.Proofs.SpelledRuns

/-!
# The case of letters does not matter

Two sources that differ only in the case of their ASCII letters have the same
lines, the same words up to case on each of them, and so the same assembly but
for the letters that the listing shows and that diagnostics quote.

Everything on the way from the source to its words looks at blanks, separators,
line feeds and semicolons, none of which is a letter.  Cutting a source apart
therefore commutes with putting it in capitals:

      source ─────────── cut ──────────→ lines, words
        │                                   │
     capitals                            capitals
        ↓                                   ↓
      SOURCE ─────────── cut ──────────→ LINES, WORDS

* `words_asciiUpper`, `splitOn_asciiUpper`, `codeLines_asciiUpper` — the square,
  for words, lines and code lines;
* `codeLines_respelled` — so sources that differ in case have code lines that do;
* `assemble?_of_differInCase` — and are assembled alike.
-/

namespace SegmentAssembler

/-- The texts differ at most in the case of ASCII letters. -/
def DifferInCase (x y : Text) : Prop := Text.sameLetters x y = true

instance (x y : Text) : Decidable (DifferInCase x y) :=
  inferInstanceAs (Decidable (Text.sameLetters x y = true))

/-- Texts differ in case only exactly if their capitals are the same. -/
theorem differInCase_iff {x y : Text} :
    DifferInCase x y ↔ Text.asciiUpper x = Text.asciiUpper y :=
  Text.sameLetters_iff x y

/-- **The scan cannot tell such words apart.** -/
theorem spelling_differInCase : Spelling DifferInCase where
  letters h := (differInCase_iff.mp h).symm
  dropLast {x y} h := by
    rw [differInCase_iff, Text.asciiUpper, Text.asciiUpper, List.map_dropLast, List.map_dropLast]
    exact congrArg List.dropLast (differInCase_iff.mp h)
  nil := differInCase_iff.mpr rfl
  directive _ := differInCase_iff.mpr rfl
  capital _ := differInCase_iff.mpr rfl

/-! ### Words in capitals -/

/-- The head with its word in capitals. -/
def Head.inCapitals : Head → Head
  | gap => gap
  | word read => word (Text.asciiUpper read)
  | comment => comment

namespace Reader

/-- The reader with all its words in capitals. -/
def inCapitals (r : Reader) : Reader := ⟨r.complete.map Text.asciiUpper, r.head.inCapitals⟩

/-- A reader in capitals has read the same words, in capitals. -/
theorem finished_inCapitals (r : Reader) :
    r.inCapitals.finished = r.finished.map Text.asciiUpper := by
  obtain ⟨complete, head⟩ := r
  cases head with
  | word read => simp [inCapitals, finished, Head.inCapitals, Text.asciiUpper]
  | gap => rfl
  | comment => rfl

/-- No letter begins a comment, ends one or separates words. -/
theorem feed_inCapitals (r : Reader) (c : Char) :
    r.inCapitals.feed c.toUpper = (r.feed c).inCapitals := by
  have hcomment : ∀ c : Char, c.toUpper = ';' ↔ c = ';' := toUpper_eq_iff (by decide)
  have hnewline : ∀ c : Char, c.toUpper = '\n' ↔ c = '\n' := toUpper_eq_iff (by decide)
  have hseparator : ∀ c : Char, isSeparator c.toUpper = isSeparator c := toUpper_blind (by decide)
  have hfinished := r.finished_inCapitals
  obtain ⟨complete, head⟩ := r
  cases head with
  | gap =>
      simp only [feed, inCapitals, Head.inCapitals, hcomment, hseparator]
      split
      · rfl
      · split <;> rfl
  | word read =>
      simp only [inCapitals, Head.inCapitals] at hfinished
      simp only [feed, inCapitals, Head.inCapitals, hcomment, hseparator, hfinished]
      split
      · rfl
      · split <;> rfl
  | comment =>
      simp only [feed, inCapitals, Head.inCapitals, hnewline]
      split <;> rfl

/-- A text in capitals is read as the text is, in capitals. -/
theorem foldl_feed_inCapitals (t : Text) (r : Reader) :
    (Text.asciiUpper t).foldl feed r.inCapitals = (t.foldl feed r).inCapitals := by
  induction t generalizing r with
  | nil => rfl
  | cons c t ih => rw [Text.asciiUpper_cons, List.foldl_cons, List.foldl_cons, feed_inCapitals, ih]

end Reader

/-- **The words of a text in capitals are its words in capitals.** -/
theorem words_asciiUpper (t : Text) :
    words (Text.asciiUpper t) = (words t).map Text.asciiUpper := by
  have hread := Reader.foldl_feed_inCapitals t {}
  unfold words Reader.words
  rw [List.map_reverse, ← Reader.finished_inCapitals, ← hread]
  rfl

/-! ### Lines in capitals -/

/-- Trimming does not see the case of letters. -/
theorem Text.trim_asciiUpper (t : Text) : trim (asciiUpper t) = asciiUpper (trim t) := by
  have hblank : isBlank ∘ Char.toUpper = isBlank := funext (toUpper_blind (by decide))
  simp only [trim, asciiUpper, List.dropWhile_map, ← List.map_reverse, hblank]

theorem Text.isAllBlank_asciiUpper (t : Text) : isAllBlank (asciiUpper t) = isAllBlank t := by
  have hblank : isBlank ∘ Char.toUpper = isBlank := funext (toUpper_blind (by decide))
  rw [isAllBlank, isAllBlank, asciiUpper, List.all_map, hblank]

theorem splitOn_asciiUpper (source : Text) :
    (Text.asciiUpper source).splitOn '\n' = (source.splitOn '\n').map Text.asciiUpper := by
  have hnewline : ∀ c : Char, (c.toUpper == '\n') = (c == '\n') :=
    toUpper_blind (f := fun c => c == '\n') (by decide)
  induction source with
  | nil => rfl
  | cons c rest ih =>
      obtain ⟨line, more, hsplit⟩ := List.exists_cons_of_ne_nil (List.splitOn_ne_nil '\n' rest)
      rw [Text.asciiUpper_cons, List.splitOn_cons_eq_if_modifyHead,
        List.splitOn_cons_eq_if_modifyHead, ih, hsplit, hnewline]
      split <;> rfl

/-- The line in capitals. -/
def Line.inCapitals (line : Line) : Line := ⟨line.number, Text.asciiUpper line.text⟩

/-- The code line with all its words in capitals. -/
def CodeLine.inCapitals (line : CodeLine) : CodeLine :=
  ⟨line.number, Text.asciiUpper line.head, line.rest.map Text.asciiUpper⟩

/-- The lines of a source in capitals are its lines in capitals. -/
theorem splitLines_asciiUpper (source : Text) :
    splitLines (Text.asciiUpper source) = (splitLines source).map Line.inCapitals := by
  unfold splitLines
  rw [splitOn_asciiUpper, List.zipIdx_map, List.map_map, List.map_map]
  refine List.map_congr_left fun entry _ => ?_
  exact congrArg (Line.mk entry.2) (Text.trim_asciiUpper entry.1)

/-- The words of a line in capitals are its words in capitals. -/
theorem Line.code?_inCapitals (line : Line) :
    line.inCapitals.code? = line.code?.map CodeLine.inCapitals := by
  unfold code? inCapitals
  rw [words_asciiUpper]
  cases words line.text with
  | nil => rfl
  | cons head rest => rfl

/-- **The code of a source in capitals is its code in capitals.** -/
theorem codeLines_asciiUpper (source : Text) :
    codeLines (splitLines (Text.asciiUpper source)) =
      (codeLines (splitLines source)).map CodeLine.inCapitals := by
  rw [splitLines_asciiUpper, codeLines, codeLines, List.filterMap_map, List.map_filterMap]
  exact List.filterMap_congr fun line _ => line.code?_inCapitals

/-- Lists with the same images correspond member by member. -/
theorem forall₂_of_map_eq {α β : Type} {f : α → β} {R : α → α → Prop}
    (hR : ∀ x y, f x = f y → R x y) {l l' : List α} (h : l.map f = l'.map f) :
    List.Forall₂ R l l' := by
  rw [← List.forall₂_eq_eq_eq, List.forall₂_map_left_iff, List.forall₂_map_right_iff] at h
  exact h.imp hR

/-- Lines that are the same in capitals have words that differ at most in case. -/
theorem CodeLine.respelled_of_inCapitals {line line' : CodeLine}
    (h : line.inCapitals = line'.inCapitals) : line.Respelled DifferInCase line' := by
  rw [inCapitals, inCapitals, CodeLine.mk.injEq] at h
  obtain ⟨hnumber, hhead, hrest⟩ := h
  exact ⟨hnumber.symm, differInCase_iff.mpr hhead,
    forall₂_of_map_eq (fun _ _ => differInCase_iff.mpr) hrest⟩

section Sources

variable {source other : Text}

/-- **Sources that differ in case have code lines that do.** -/
theorem codeLines_respelled (h : DifferInCase source other) :
    List.Forall₂ (CodeLine.Respelled DifferInCase) (codeLines (splitLines source))
      (codeLines (splitLines other)) := by
  have hcapitals : (codeLines (splitLines source)).map CodeLine.inCapitals =
      (codeLines (splitLines other)).map CodeLine.inCapitals := by
    rw [← codeLines_asciiUpper, ← codeLines_asciiUpper, differInCase_iff.mp h]
  exact forall₂_of_map_eq (fun _ _ => CodeLine.respelled_of_inCapitals) hcapitals

/-- Sources that differ in case have equally many lines. -/
theorem length_splitLines_of_differInCase (h : DifferInCase source other) :
    (splitLines other).length = (splitLines source).length := by
  have hlength := congrArg (fun t => (splitLines t).length) (differInCase_iff.mp h)
  simp only [splitLines_asciiUpper, List.length_map] at hlength
  exact hlength.symm

/-- Sources that differ in case are blank together. -/
theorem isAllBlank_of_differInCase (h : DifferInCase source other) :
    Text.isAllBlank other = Text.isAllBlank source := by
  rw [← Text.isAllBlank_asciiUpper other, ← differInCase_iff.mp h, Text.isAllBlank_asciiUpper]

end Sources

/-! ### Assemblies -/

/-- The same lines, and on each of them the same causes in the same order, where
quoted texts differ at most in case. -/
def SameLog (log log' : LineLog) : Prop :=
  List.Forall₂ (UnderSameKey (List.Forall₂ (Diagnostic.Respelled DifferInCase))) log log'

/-- Two layouts that are the same but for the letters that diagnostics quote,
both those of the scan alone and those of the whole assembly. -/
structure Layout.SameUpToCase (l l' : Layout) : Prop where
  addresses : l'.addresses = l.addresses
  names : l'.names = l.names
  segmentName : l'.segmentName = l.segmentName
  startAddress : l'.startAddress = l.startAddress
  segmentLength : l'.segmentLength = l.segmentLength
  entryPoint : l'.entryPoint = l.entryPoint
  endLine : l'.endLine = l.endLine
  body : l'.image.body = l.image.body
  hex : l'.image.hex = l.image.hex
  scanErrors : SameLog (Report.ofFindings l.findings).errorLines
    (Report.ofFindings l'.findings).errorLines
  scanWarnings : SameLog (Report.ofFindings l.findings).warningLines
    (Report.ofFindings l'.findings).warningLines
  errors : SameLog l.report.errorLines l'.report.errorLines
  warnings : SameLog l.report.warningLines l'.report.warningLines

/-- Sources that differ in case have the same layout, up to the case of what it quotes. -/
theorem Layout.sameUpToCase_of_differInCase {source other : Text}
    (h : DifferInCase source other) : (ofSource source).SameUpToCase (ofSource other) := by
  have hcode := codeLines_respelled h
  have hlayout := spelling_differInCase.respelled_ofSource hcode
    (length_splitLines_of_differInCase h)
  exact {
    addresses := hlayout.addresses_eq
    names := congrArg State.names (spelling_differInCase.final_eq hcode)
    segmentName := hlayout.segmentName
    startAddress := hlayout.startAddress_eq
    segmentLength := hlayout.segmentLength_eq
    entryPoint := hlayout.entryPoint_eq
    endLine := hlayout.endLine
    body := hlayout.body_eq
    hex := hlayout.hex_eq
    scanErrors := rel_byLine (Report.rel_select .error hlayout.scanFindings)
    scanWarnings := rel_byLine (Report.rel_select .warning hlayout.scanFindings)
    errors := rel_byLine hlayout.errors
    warnings := rel_byLine hlayout.warnings }

/-- **The case of letters does not matter.**  Of two sources that differ only in
the case of ASCII letters, either both are blank or both are assembled, to the
same object record; and the layouts agree in everything but the letters that
their reports quote. -/
theorem assemble?_of_differInCase {source other : Text} (h : DifferInCase source other) :
    (assemble? source = none ∧ assemble? other = none) ∨
      ∃ a b, assemble? source = some a ∧ assemble? other = some b ∧
        b.objectBytes = a.objectBytes ∧ b.objectText = a.objectText ∧
        SameLog a.report.errorLines b.report.errorLines ∧
        SameLog a.report.warningLines b.report.warningLines ∧
        (Layout.ofSource source).SameUpToCase (Layout.ofSource other) := by
  have hsame := Layout.sameUpToCase_of_differInCase h
  cases hblank : Text.isAllBlank source with
  | true =>
      left
      simp [assemble?, isAllBlank_of_differInCase h, hblank]
  | false =>
      right
      have hother : Text.isAllBlank other = false := by rw [isAllBlank_of_differInCase h, hblank]
      have hbytes : (Assembly.ofLayout (.ofSource other)).objectBytes =
          (Assembly.ofLayout (.ofSource source)).objectBytes :=
        (spelling_differInCase.respelled_ofSource (codeLines_respelled h)
          (length_splitLines_of_differInCase h)).objectBytes_eq
      refine ⟨_, _, assemble?_of_not_blank hblank, assemble?_of_not_blank hother, hbytes, ?_,
        hsame.errors, hsame.warnings, hsame⟩
      rw [Assembly.objectText, Assembly.objectText, hbytes]

/-- A program in mixed letters that misspells a number and declares a name
twice, written in two ways: the report quotes the number as it stands. -/
theorem assemble?_of_differInCase_mixed :
    let source := "p segment\nn dw 0fFh, 1x ; two\nN: mov ax,n\nP ends\nEnd p".toList
    let other := "P Segment\nN DW 0ffH, 1X ; Two\nn: MOV Ax,N\np ENDS\neND P".toList
    DifferInCase source other ∧
    (Layout.ofSource source).report.errorLines =
      [(2, [.badExpression "1x".toList]), (3, [.duplicateId "N".toList])] ∧
    (Layout.ofSource other).report.errorLines =
      [(2, [.badExpression "1X".toList]), (3, [.duplicateId "N".toList])] ∧
    ∃ a b, assemble? source = some a ∧ assemble? other = some b ∧
      b.objectBytes = a.objectBytes ∧ SameLog a.report.errorLines b.report.errorLines := by
  intro source other
  have hcase : DifferInCase source other := by decide
  have hblank : Text.isAllBlank source = false := by decide
  refine ⟨hcase, by decide, by decide, ?_⟩
  rcases assemble?_of_differInCase hcase with hnone | ⟨a, b, ha, hb, hbytes, -, herrors, -⟩
  · rw [assemble?_of_not_blank hblank] at hnone
    cases hnone.1
  · exact ⟨a, b, ha, hb, hbytes, herrors⟩

end SegmentAssembler
