import Mathlib.Logic.Relation
import SegmentAssembler.Proofs.AddressAccounting
import SegmentAssembler.Proofs.Respelling
import SegmentAssembler.Proofs.WordRewriting

/-!
# The spacing of a source does not matter

A line may be spaced out in many ways without a change to what it says: a gap
between two words may be filled otherwise, separators may stand at the ends of
the line or not, and a comment may stand behind it or not.

    MOV AX,X
      MOV   AX , X    ; the first one

Each such edit leaves the words of the line as they are, because the reader of
words is in the same place after any two gaps.  Trimming a line is itself an
edit of this kind, as long as its blanks are among the separators.

* `Reader.foldl_feed_of_isGap` — after a gap the reader is where any gap takes it;
* `Respaced.words_eq` — so lines that are spaced differently have the same words;
* `codeLines_of_respaced` — and sources made of such lines the same code;
* `splitLines_crlf` — a carriage return in front of a line feed is trimmed off
  with the other blanks;
* `spacing_irrelevant` — what this means for the assembly.
-/

namespace SegmentAssembler

/-! ### Edits of the spacing -/

/-- A run of separators within a line. -/
def IsGap (s : Text) : Prop := ∀ c ∈ s, isSeparator c = true ∧ c ≠ '\n'

instance (s : Text) : Decidable (IsGap s) :=
  decidable_of_iff (s.all (fun c => isSeparator c && c != '\n') = true) (by simp [IsGap])

/-- One edit of the spacing of a line. -/
inductive SpacingEdit : Text → Text → Prop
  /-- A gap is filled otherwise. -/
  | gap {front s s' back : Text} (hs : IsGap s) (hne : s ≠ []) (hs' : IsGap s') (hne' : s' ≠ []) :
      SpacingEdit (front ++ s ++ back) (front ++ s' ++ back)
  /-- Separators are put in front of the line. -/
  | before {s line : Text} (hs : IsGap s) : SpacingEdit line (s ++ line)
  /-- Separators are put behind the line. -/
  | behind {s line : Text} (hs : IsGap s) : SpacingEdit line (line ++ s)
  /-- A comment is put behind the line. -/
  | comment {line remark : Text} (hremark : '\n' ∉ remark) :
      SpacingEdit line (line ++ ';' :: remark)

/-- Two lines that come from one another by such edits, made and undone. -/
def Respaced : Text → Text → Prop := Relation.EqvGen SpacingEdit

namespace Reader

/-- The reader after a gap: the word under the head is complete.  In a comment
a gap is part of the comment. -/
def paused (r : Reader) : Reader :=
  match r.head with
  | .comment => r
  | _ => ⟨r.finished, .gap⟩

/-- A pause ends no word that had not been read. -/
theorem finished_paused (r : Reader) : r.paused.finished = r.finished := by
  obtain ⟨complete, head⟩ := r
  cases head <;> rfl

theorem paused_paused (r : Reader) : r.paused.paused = r.paused := by
  obtain ⟨complete, head⟩ := r
  cases head <;> rfl

/-- Any separator but a line feed makes the reader pause. -/
theorem feed_separator (r : Reader) {c : Char} (hsep : isSeparator c = true) (hc : c ≠ '\n') :
    r.feed c = r.paused := by
  have hsemicolon := ne_semicolon_of_isSeparator hsep
  obtain ⟨complete, head⟩ := r
  cases head with
  | gap => simp [feed, paused, finished, hsep, hsemicolon]
  | word read => simp [feed, paused, hsep, hsemicolon]
  | comment => simp [feed, paused, hc]

/-- **After a gap the reader is where any gap takes it.** -/
theorem foldl_feed_of_isGap {s : Text} (hs : IsGap s) (hne : s ≠ []) (r : Reader) :
    s.foldl feed r = r.paused := by
  induction s generalizing r with
  | nil => exact absurd rfl hne
  | cons c rest ih =>
      obtain ⟨⟨hsep, hc⟩, hrest⟩ := List.forall_mem_cons.mp hs
      rw [List.foldl_cons, feed_separator r hsep hc]
      by_cases hnil : rest = []
      · rw [hnil, List.foldl_nil]
      · rw [ih hrest hnil, paused_paused]

/-- A gap adds no word. -/
theorem finished_foldl_of_isGap {s : Text} (hs : IsGap s) (r : Reader) :
    (s.foldl feed r).finished = r.finished := by
  by_cases hnil : s = []
  · rw [hnil, List.foldl_nil]
  · rw [foldl_feed_of_isGap hs hnil, finished_paused]

/-- A comment goes on to the end of its line. -/
theorem foldl_feed_comment {t : Text} (h : '\n' ∉ t) (complete : List Text) :
    t.foldl feed ⟨complete, .comment⟩ = ⟨complete, .comment⟩ := by
  induction t with
  | nil => rfl
  | cons c rest ih =>
      rw [List.mem_cons, not_or] at h
      have hfeed : feed ⟨complete, .comment⟩ c = ⟨complete, .comment⟩ := if_neg (Ne.symm h.1)
      rw [List.foldl_cons, hfeed, ih h.2]

/-- A comment adds no word to those that were read. -/
theorem finished_foldl_comment {remark : Text} (h : '\n' ∉ remark) (r : Reader) :
    ((';' :: remark).foldl feed r).finished = r.finished := by
  obtain ⟨complete, head⟩ := r
  have hfeed : feed ⟨complete, head⟩ ';' = ⟨finished ⟨complete, head⟩, .comment⟩ := by
    cases head <;> rfl
  rw [List.foldl_cons, hfeed, foldl_feed_comment h]
  rfl

end Reader

/-- An edit of the spacing leaves the words of the line as they are. -/
theorem SpacingEdit.words_eq {t t' : Text} (h : SpacingEdit t t') : words t' = words t := by
  cases h with
  | gap hs hne hs' hne' =>
      simp only [words, List.foldl_append, Reader.foldl_feed_of_isGap hs hne,
        Reader.foldl_feed_of_isGap hs' hne']
  | @before s _ hs =>
      have hstart : s.foldl Reader.feed {} = {} := by
        by_cases hnil : s = []
        · rw [hnil, List.foldl_nil]
        · rw [Reader.foldl_feed_of_isGap hs hnil]
          rfl
      rw [words, List.foldl_append, hstart]
      rfl
  | behind hs =>
      rw [words, words, Reader.words, Reader.words, List.foldl_append,
        Reader.finished_foldl_of_isGap hs]
  | comment hremark =>
      rw [words, words, Reader.words, Reader.words, List.foldl_append,
        Reader.finished_foldl_comment hremark]

/-- **Lines that are spaced differently have the same words.** -/
theorem Respaced.words_eq {t t' : Text} (h : Respaced t t') : words t' = words t := by
  induction h with
  | rel t t' edit => exact edit.words_eq
  | refl t => rfl
  | symm t t' _ ih => exact ih.symm
  | trans t u t' _ _ first second => exact second.trans first

/-! ### Trimmed lines -/

/-- The blanks of the text are spaces, tabs, carriage returns, line feeds and
form feeds. -/
def Text.PlainBlanks (t : Text) : Prop :=
  ∀ c ∈ t, isBlank c = true → c ∈ [' ', '\t', '\r', '\n', '\x0c']

instance (t : Text) : Decidable t.PlainBlanks :=
  decidable_of_iff
    (t.all (fun c => !Text.isBlank c || [' ', '\t', '\r', '\n', '\x0c'].contains c) = true)
    (by simp [Text.PlainBlanks, imp_iff_not_or])

theorem isSeparator_of_plain {c : Char} (h : c ∈ [' ', '\t', '\r', '\n', '\x0c']) :
    isSeparator c = true := by
  simp only [List.mem_cons, List.not_mem_nil, or_false] at h
  rcases h with rfl | rfl | rfl | rfl | rfl <;> decide

/-- **Trimming is an edit of the spacing.** -/
theorem respaced_trim {t : Text} (hline : '\n' ∉ t) (hplain : t.PlainBlanks) :
    Respaced (Text.trim t) t := by
  have hends : ∀ {s : Text}, (∀ c ∈ s, c ∈ t ∧ Text.isBlank c = true) → IsGap s := by
    intro s hs c hc
    obtain ⟨hmem, hblank⟩ := hs c hc
    refine ⟨isSeparator_of_plain (hplain c hmem hblank), ?_⟩
    intro heq
    exact hline (heq ▸ hmem)
  let lead := t.takeWhile Text.isBlank
  let trail := ((t.dropWhile Text.isBlank).reverse.takeWhile Text.isBlank).reverse
  have hparts : t = lead ++ Text.trim t ++ trail := Text.eq_append_trim t
  have hlead : IsGap lead := hends fun c hc =>
    ⟨(List.takeWhile_sublist _).mem hc, List.mem_takeWhile_imp hc⟩
  have htrail : IsGap trail := hends fun c hc =>
    ⟨hparts ▸ List.mem_append_right _ hc, List.mem_takeWhile_imp (List.mem_reverse.mp hc)⟩
  have hfront : Respaced (Text.trim t) (lead ++ Text.trim t) := .rel _ _ (.before hlead)
  have hback : Respaced (lead ++ Text.trim t) (lead ++ Text.trim t ++ trail) :=
    .rel _ _ (.behind htrail)
  rw [← hparts] at hback
  exact hfront.trans _ _ _ hback

/-! ### Sources that are spaced differently -/

/-- A code line made of words, if there are any. -/
def CodeLine.ofWords? (entry : List Text × Nat) : Option CodeLine :=
  match entry.1 with
  | [] => none
  | head :: rest => some ⟨entry.2, head, rest⟩

/-- The code of a source is in the words of its lines, trimmed or not. -/
theorem codeLines_splitLines {source : Text} (hplain : source.PlainBlanks) :
    codeLines (splitLines source) =
      (((source.splitOn '\n').map words).zipIdx 1).filterMap CodeLine.ofWords? := by
  rw [codeLines, splitLines, List.zipIdx_map, List.filterMap_map, List.filterMap_map]
  refine List.filterMap_congr ?_
  intro entry hentry
  have htext : entry.1 ∈ source.splitOn '\n' := List.fst_mem_of_mem_zipIdx hentry
  have hblanks : Text.PlainBlanks entry.1 := fun c hc => hplain c (mem_of_mem_splitOn htext hc).2
  have hwords := (respaced_trim (newline_not_mem_of_mem_splitOn htext) hblanks).words_eq
  simp only [Function.comp_apply, Line.code?, ← hwords]
  rfl

section Sources

variable {source other : Text}

/-- The lines of the other source are those of the source, spaced differently. -/
def RespacedLines (source other : Text) : Prop :=
  List.Forall₂ Respaced (source.splitOn '\n') (other.splitOn '\n')

/-- **Sources whose lines are spaced differently have the same code.** -/
theorem codeLines_of_respaced (hsource : source.PlainBlanks) (hother : other.PlainBlanks)
    (h : RespacedLines source other) :
    codeLines (splitLines other) = codeLines (splitLines source) := by
  have hwords : (other.splitOn '\n').map words = (source.splitOn '\n').map words := by
    rw [← List.forall₂_eq_eq_eq, List.forall₂_map_left_iff, List.forall₂_map_right_iff]
    exact h.flip.imp fun _ _ hline => Respaced.words_eq hline
  rw [codeLines_splitLines hsource, codeLines_splitLines hother, hwords]

/-- Their layouts are the same but for the text of the lines. -/
theorem Layout.ofSource_of_codeLines
    (h : codeLines (splitLines other) = codeLines (splitLines source)) :
    ofSource other = { ofSource source with lines := splitLines other } := by
  simp only [ofSource, SegmentAssembler.endLine, programLines, h]

/-- The text of the lines shows in the listing and nowhere else. -/
theorem Layout.ofLayout_of_lines {l : Layout} {lines : List Line}
    (hlength : lines.length = l.lines.length) :
    Assembly.ofLayout { l with lines } =
      { Assembly.ofLayout l with listing := (listing { l with lines }).text } := by
  have hlast : lastLine { l with lines } = l.lastLine := by
    simp only [lastLine, hlength]
  have hfindings : lengthFindings { l with lines } = l.lengthFindings := by
    rw [lengthFindings, hlast]
    rfl
  have hreport : report { l with lines } = l.report := by
    simp only [report, findings, hfindings]
    rfl
  have hevents : events { l with lines } = l.events := by
    simp only [events, hfindings]
    rfl
  simp only [Assembly.ofLayout, hreport, hevents]
  rfl

/-- Respaced sources have equally many lines. -/
theorem length_splitLines_of_respaced (h : RespacedLines source other) :
    (splitLines other).length = (splitLines source).length := by
  simp only [splitLines, List.length_map, List.length_zipIdx]
  exact h.length_eq.symm

end Sources

/-! ### Carriage returns -/

/-- The source with a carriage return in front of every line feed. -/
def crlf (source : Text) : Text := source.flatMap fun c => if c = '\n' then ['\r', '\n'] else [c]

/-- Lines of the source, some of them with a carriage return behind them. -/
theorem splitOn_crlf (source : Text) :
    List.Forall₂ (fun line line' => line' = line ∨ line' = line ++ ['\r'])
      (source.splitOn '\n') ((crlf source).splitOn '\n') := by
  induction source with
  | nil => exact .cons (Or.inl rfl) .nil
  | cons c rest ih =>
      have hcrlf : crlf (c :: rest) = (if c = '\n' then ['\r', '\n'] else [c]) ++ crlf rest := rfl
      rw [hcrlf, List.splitOn_cons_eq_if_modifyHead]
      by_cases hc : c = '\n'
      · have hlines : (['\r', '\n'] ++ crlf rest).splitOn '\n' =
            ['\r'] :: (crlf rest).splitOn '\n' :=
          List.splitOn_append_cons_self ['\r'] (crlf rest)
        rw [if_pos hc, if_pos (beq_iff_eq.mpr hc), hlines]
        exact .cons (Or.inr rfl) ih
      · have hbreak : ¬ (c == '\n') = true := mt beq_iff_eq.mp hc
        rw [if_neg hc, if_neg hbreak, List.singleton_append, List.splitOn_cons_eq_if_modifyHead,
          if_neg hbreak]
        generalize rest.splitOn '\n' = lines at ih
        generalize (crlf rest).splitOn '\n' = lines' at ih
        cases ih with
        | nil => exact .nil
        | cons hline hlines =>
            refine .cons ?_ hlines
            rcases hline with rfl | rfl
            · exact Or.inl rfl
            · exact Or.inr rfl

/-- A blank behind a text is trimmed off with the others. -/
theorem Text.trim_append_blank (t : Text) {c : Char} (hc : isBlank c = true) :
    trim (t ++ [c]) = trim t := by
  let lead := t.takeWhile isBlank
  let trail := ((t.dropWhile isBlank).reverse.takeWhile isBlank).reverse
  have hparts : t ++ [c] = lead ++ trim t ++ (trail ++ [c]) := by
    rw [← List.append_assoc]
    exact congrArg (· ++ [c]) (eq_append_trim t)
  have htrail : ∀ d ∈ trail ++ [c], isBlank d = true := by
    intro d hd
    rcases List.mem_append.mp hd with hd | hd
    · exact List.mem_takeWhile_imp (List.mem_reverse.mp hd)
    · rwa [List.mem_singleton.mp hd]
  rw [hparts]
  exact trim_between (fun d hd => List.mem_takeWhile_imp hd) htrail (startsPlain_trim t)
    (endsPlain_trim t)

/-- **Carriage returns in front of line feeds leave the lines as they are.** -/
theorem splitLines_crlf (source : Text) : splitLines (crlf source) = splitLines source := by
  have htrim : ((crlf source).splitOn '\n').map Text.trim =
      (source.splitOn '\n').map Text.trim := by
    rw [← List.forall₂_eq_eq_eq, List.forall₂_map_left_iff, List.forall₂_map_right_iff]
    refine (splitOn_crlf source).flip.imp ?_
    intro line' line hline
    rcases hline with rfl | rfl
    · rfl
    · exact Text.trim_append_blank line (by decide)
  have hlines : ∀ t : Text, splitLines t =
      (((t.splitOn '\n').map Text.trim).zipIdx 1).map fun entry => ⟨entry.2, entry.1⟩ := by
    intro t
    rw [splitLines, List.zipIdx_map, List.map_map]
    rfl
  rw [hlines, hlines, htrim]

theorem isAllBlank_crlf (source : Text) :
    Text.isAllBlank (crlf source) = Text.isAllBlank source := by
  have hcrlf : Text.isAllBlank ['\r', '\n'] = true := by decide
  have hbreak : Text.isBlank '\n' = true := by decide
  induction source with
  | nil => rfl
  | cons c rest ih =>
      have hcons : crlf (c :: rest) = (if c = '\n' then ['\r', '\n'] else [c]) ++ crlf rest := rfl
      unfold Text.isAllBlank at ih hcrlf ⊢
      rw [hcons, List.all_append, ih, List.all_cons]
      by_cases hc : c = '\n'
      · rw [if_pos hc, hc, hcrlf, hbreak]
      · rw [if_neg hc, List.all_cons, List.all_nil, Bool.and_true]

/-! ### Assemblies -/

/-- **The spacing of a source does not matter.**  Take two sources that are not
blank, whose only blanks are spaces, tabs, carriage returns, line feeds and form
feeds, and whose lines are the same but for gaps, separators at their ends and
comments.  Both are assembled, with the same object record, the same report, the
same names, addresses, items and code.  And a source with a carriage return in
front of every line feed gives the same assembly altogether, be it blank or not. -/
theorem spacing_irrelevant :
    (∀ source other : Text, Text.isAllBlank source = false → Text.isAllBlank other = false →
      source.PlainBlanks → other.PlainBlanks → RespacedLines source other →
        ∃ a b, assemble? source = some a ∧ assemble? other = some b ∧
          b.objectBytes = a.objectBytes ∧ b.objectText = a.objectText ∧
          b.report.errorLines = a.report.errorLines ∧
          b.report.warningLines = a.report.warningLines ∧
          (Layout.ofSource other).names = (Layout.ofSource source).names ∧
          (Layout.ofSource other).addresses = (Layout.ofSource source).addresses ∧
          (Layout.ofSource other).items = (Layout.ofSource source).items ∧
          (Layout.ofSource other).image.hex = (Layout.ofSource source).image.hex) ∧
    ∀ source : Text, assemble? (crlf source) = assemble? source := by
  constructor
  · intro source other hsource hother hplain hplain' hlines
    have hlayout := Layout.ofSource_of_codeLines (codeLines_of_respaced hplain hplain' hlines)
    have hassembly : Assembly.ofLayout (.ofSource other) =
        { Assembly.ofLayout (.ofSource source) with
          listing := (Layout.ofSource other).listing.text } := by
      rw [hlayout]
      exact Layout.ofLayout_of_lines (length_splitLines_of_respaced hlines)
    refine ⟨_, _, assemble?_of_not_blank hsource, assemble?_of_not_blank hother, ?_⟩
    rw [hassembly, hlayout]
    exact ⟨rfl, rfl, rfl, rfl, rfl, rfl, rfl, rfl⟩
  · intro source
    have hlayout : Layout.ofSource (crlf source) = Layout.ofSource source := by
      rw [Layout.ofSource, splitLines_crlf]
      rfl
    rw [assemble?, assemble?, isAllBlank_crlf, hlayout]

/-- Gaps filled otherwise, a comma behind the last word, a comment that comes and
one that goes, in a program with a name that is not declared. -/
theorem spacing_irrelevant_commas :
    let source := "S SEGMENT\nX DW 1,2\nMOV AX,Y ; load\nS ENDS".toList
    let other := "\tS SEGMENT; start\nX DW , 1,2,\nMOV AX,Y\nS ENDS".toList
    RespacedLines source other ∧
    ∃ a b, assemble? source = some a ∧ assemble? other = some b ∧
      b.objectBytes = a.objectBytes ∧ b.report.errorLines = a.report.errorLines ∧
      a.report.errorLines = [(3, [.undeclared "Y".toList])] ∧
      assemble? (crlf source) = some a := by
  intro source other
  have hopening : Respaced "S SEGMENT".toList "\tS SEGMENT; start".toList :=
    .trans _ "\tS SEGMENT".toList _
      (.rel _ _ (.before (s := ['\t']) (by decide)))
      (.rel _ _ (@SpacingEdit.comment _ " start".toList (by decide)))
  have hdata : Respaced "X DW 1,2".toList "X DW , 1,2,".toList :=
    .trans _ "X DW , 1,2".toList _
      (.rel _ _ (@SpacingEdit.gap "X DW".toList [' '] " , ".toList "1,2".toList
        (by decide) (by decide) (by decide) (by decide)))
      (.rel _ _ (.behind (s := [',']) (by decide)))
  have hload : Respaced "MOV AX,Y ; load".toList "MOV AX,Y".toList :=
    .symm _ _ <| .trans _ "MOV AX,Y ".toList _
      (.rel _ _ (.behind (s := [' ']) (by decide)))
      (.rel _ _ (@SpacingEdit.comment _ " load".toList (by decide)))
  have hlines : RespacedLines source other :=
    .cons hopening (.cons hdata (.cons hload (.cons (.refl _) .nil)))
  obtain ⟨hedited, hbreaks⟩ := spacing_irrelevant
  obtain ⟨a, b, ha, hb, hbytes, -, herrors, -⟩ :=
    hedited source other (by decide) (by decide) (by decide) (by decide) hlines
  have hreport : a.report.errorLines = [(3, [.undeclared "Y".toList])] := by
    rw [Layout.eq_ofLayout_of_assemble? ha]
    decide
  exact ⟨hlines, a, b, ha, hb, hbytes, herrors, hreport, (hbreaks source).trans ha⟩

end SegmentAssembler
