import Mathlib.Data.List.Basic
import Mathlib.Data.List.Find
import SegmentAssembler.Proofs.RunRecords

/-!
# Sources made of lines

A source is cut into lines at its line feeds, and lines that are put together
with line feeds in between are cut apart again in the same places.

* `splitLines_joinLines` — so the lines of a source can be given one by one;
* `splitLines_blankLine` — and one of them can be emptied while the others
  keep their text and their numbers;
* `codeLines_blankLine` — of the code lines only that one is gone;
* `splitLines_append` — text below a source leaves the lines of the source as
  they are, and the program goes on with the text unless it has ended
  (`programLines_append`);
* `words_pair` — two words with a space in between are read as two words, and
  numerals are words (`isWord_of_read?`).
-/

namespace SegmentAssembler

/-- Lines put together with line feeds in between. -/
def joinLines (lines : List Text) : Text := ['\n'].intercalate lines

/-- The source with the line of the given number emptied. -/
def blankLine (source : Text) (n : Nat) : Text :=
  joinLines ((source.splitOn '\n').mapIdx fun i text => if i + 1 = n then [] else text)

/-- The characters of a line are characters of the source other than the line
feed. -/
theorem mem_of_mem_splitOn {source text : Text} (h : text ∈ source.splitOn '\n') {c : Char}
    (hc : c ∈ text) : c ≠ '\n' ∧ c ∈ source := by
  induction source generalizing text with
  | nil =>
      obtain rfl : text = [] := by simpa using h
      cases hc
  | cons first rest ih =>
      rw [List.splitOn_cons_eq_if_modifyHead] at h
      obtain ⟨line, more, hsplit⟩ :=
        List.exists_cons_of_ne_nil (List.splitOn_ne_nil '\n' rest)
      rw [hsplit] at h ih
      have hlater : text ∈ line :: more → c ≠ '\n' ∧ c ∈ first :: rest := fun hmem =>
        (ih hmem hc).imp_right (List.mem_cons_of_mem _)
      by_cases hfirst : (first == '\n') = true
      · rw [if_pos hfirst] at h
        rcases List.mem_cons.mp h with rfl | h
        · cases hc
        · exact hlater h
      · rw [if_neg hfirst, List.modifyHead_cons] at h
        rcases List.mem_cons.mp h with rfl | h
        · rcases List.mem_cons.mp hc with rfl | hc
          · exact ⟨fun heq => hfirst (beq_iff_eq.mpr heq), List.mem_cons_self⟩
          · exact (ih List.mem_cons_self hc).imp_right (List.mem_cons_of_mem _)
        · exact hlater (List.mem_cons_of_mem _ h)

/-- The lines of a source hold no line feed. -/
theorem newline_not_mem_of_mem_splitOn {source text : Text} (h : text ∈ source.splitOn '\n') :
    '\n' ∉ text :=
  fun hmem => (mem_of_mem_splitOn h hmem).1 rfl

/-- **Lines that are joined are cut apart again.** -/
theorem splitLines_joinLines {lines : List Text} (hne : lines ≠ [])
    (hlines : ∀ text ∈ lines, '\n' ∉ text) :
    splitLines (joinLines lines) =
      (lines.zipIdx 1).map fun (text, number) => ⟨number, Text.trim text⟩ := by
  rw [splitLines, joinLines, List.splitOn_intercalate _ hlines hne]

/-- The lines of a source with one line emptied. -/
theorem splitLines_blankLine (source : Text) (n : Nat) :
    splitLines (blankLine source n) =
      (splitLines source).map fun line => if line.number = n then ⟨n, []⟩ else line := by
  have hne : (source.splitOn '\n').mapIdx (fun i text => if i + 1 = n then [] else text) ≠ [] := by
    simp
  rw [blankLine, splitLines_joinLines hne]
  · unfold splitLines
    apply List.ext_getElem?
    intro i
    simp only [List.getElem?_map, List.getElem?_zipIdx, List.getElem?_mapIdx, Option.map_map]
    cases (source.splitOn '\n')[i]? with
    | none => rfl
    | some text =>
        by_cases hi : i + 1 = n
        · simp [hi, Nat.add_comm 1 i, Text.trim]
        · simp [hi, Nat.add_comm 1 i]
  · intro text htext
    obtain ⟨i, hi, rfl⟩ := List.mem_mapIdx.mp htext
    split
    · exact List.not_mem_nil
    · exact newline_not_mem_of_mem_splitOn (List.getElem_mem hi)

/-- A source with an emptied line has as many lines as before. -/
theorem length_splitLines_blankLine (source : Text) (n : Nat) :
    (splitLines (blankLine source n)).length = (splitLines source).length := by
  rw [splitLines_blankLine, List.length_map]

/-- An empty line is no code line. -/
theorem Line.code?_empty (n : Nat) : (Line.mk n []).code? = none := rfl

/-- **Emptying a line takes it out of the code lines**, and no other one. -/
theorem codeLines_blankLine (source : Text) (n : Nat) :
    codeLines (splitLines (blankLine source n)) =
      (codeLines (splitLines source)).filter fun line => decide (line.number ≠ n) := by
  rw [splitLines_blankLine, codeLines, codeLines, List.filterMap_map, List.filter_filterMap]
  refine List.filterMap_congr fun line _ => ?_
  rw [Function.comp_apply]
  cases hcode : line.code? with
  | none =>
      split
      · exact Line.code?_empty n
      · exact hcode
  | some code =>
      have hnumber := Line.number_of_code? hcode
      rw [Option.filter_some, hnumber]
      by_cases hn : line.number = n
      · rw [if_pos hn, Line.code?_empty, if_neg (by simp [hn])]
      · rw [if_neg hn, hcode, if_pos (by simp [hn])]

/-- Taking lines out of a program that do not end it. -/
private theorem takeWhile_filter_of_imp {α : Type} {p q : α → Bool} {xs : List α}
    (h : ∀ x ∈ xs, p x = false → q x = true) :
    (xs.filter p).takeWhile q = (xs.takeWhile q).filter p := by
  induction xs with
  | nil => rfl
  | cons x rest ih =>
      rw [List.forall_mem_cons] at h
      cases hp : p x with
      | false => simp [hp, h.1 hp, ih h.2]
      | true => cases hq : q x <;> simp [hp, hq, ih h.2]

/-- If the line does not end the program, emptying it takes it out of the
program and leaves the rest of the program, with its end, where it was. -/
theorem programLines_blankLine {source : Text} {n : Nat}
    (h : ∀ line ∈ codeLines (splitLines source), line.number = n → line.isEnd = false) :
    programLines (splitLines (blankLine source n)) =
        (programLines (splitLines source)).filter (fun line => decide (line.number ≠ n)) ∧
      endLine (splitLines (blankLine source n)) = endLine (splitLines source) := by
  unfold programLines endLine
  rw [codeLines_blankLine]
  constructor
  · apply takeWhile_filter_of_imp
    intro line hline hn
    simp [h line hline (by simpa using hn)]
  · rw [List.find?_filter]
    congr 1
    refine List.find?_congr fun line hline => ?_
    by_cases hn : line.number = n
    · simp [hn, h line hline hn]
    · simp [hn]

/-! ### Text below a source -/

/-- The lines of a source are numbered from one. -/
theorem number_of_getElem?_splitLines {source : Text} {line : Line} {i : Nat}
    (h : (splitLines source)[i]? = some line) : line.number = i + 1 := by
  simp only [splitLines, List.getElem?_map, List.getElem?_zipIdx, Option.map_map,
    Option.map_eq_some_iff, Function.comp_apply] at h
  obtain ⟨text, -, rfl⟩ := h
  exact Nat.add_comm 1 i

/-- Lines are numbered from one on. -/
theorem number_of_mem_splitLines {source : Text} {line : Line} (h : line ∈ splitLines source) :
    0 < line.number ∧ line.number ≤ (splitLines source).length := by
  obtain ⟨i, hi⟩ := List.getElem?_of_mem h
  obtain ⟨hlt, -⟩ := List.getElem?_eq_some_iff.mp hi
  rw [number_of_getElem?_splitLines hi]
  omega

/-- A line of a program has the number of a line of the source. -/
theorem exists_line_of_mem_programLines {lines : List Line} {code : CodeLine}
    (h : code ∈ programLines lines) : ∃ line ∈ lines, line.number = code.number := by
  have hcode : code ∈ codeLines lines := (List.takeWhile_sublist _).mem h
  obtain ⟨line, hline, hwords⟩ := List.mem_filterMap.mp hcode
  exact ⟨line, hline, (Line.number_of_code? hwords).symm⟩

/-- **Text below a source leaves its lines alone.**  The lines of the text are
numbered on from there. -/
theorem splitLines_append (source more : Text) :
    ∃ further, splitLines (source ++ '\n' :: more) = splitLines source ++ further ∧
      ∀ line ∈ further, (splitLines source).length < line.number := by
  unfold splitLines
  rw [List.splitOn_append_cons_self, List.zipIdx_append, List.map_append]
  refine ⟨_, rfl, ?_⟩
  intro line hline
  obtain ⟨⟨text, number⟩, hentry, rfl⟩ := List.mem_map.mp hline
  have hbound := List.le_snd_of_mem_zipIdx hentry
  simp only [List.length_map, List.length_zipIdx]
  omega

/-- A program ends on the first line that says so. -/
theorem endLine_append (lines further : List Line) :
    endLine (lines ++ further) = (endLine lines).or (endLine further) := by
  rw [endLine, codeLines, List.filterMap_append, List.find?_append, Option.map_or]
  rfl

/-- The program goes on in the further lines unless it has ended. -/
theorem programLines_append (lines further : List Line) :
    programLines (lines ++ further) =
      programLines lines ++ if (endLine lines).isSome then [] else programLines further := by
  have hlines : programLines (lines ++ further) =
      (codeLines lines ++ codeLines further).takeWhile fun line => !line.isEnd := by
    rw [programLines, codeLines, List.filterMap_append]
    rfl
  rw [hlines, programLines, programLines, endLine, Option.isSome_map]
  generalize codeLines lines = code
  induction code with
  | nil => rfl
  | cons line rest ih =>
      cases hend : line.isEnd with
      | true => simp [hend]
      | false => simpa [hend] using ih

/-! ### Lines made of words -/

/-- What can be seen of ASCII is no blank. -/
theorem Text.isBlank_of_visible {c : Char} (hlow : 33 ≤ c.toNat) (hhigh : c.toNat ≤ 126) :
    isBlank c = false := by
  simp only [isBlank, blankRanges, List.any_eq_false, List.mem_cons, List.not_mem_nil, or_false,
    decide_eq_true_eq]
  rintro ⟨low, high⟩ hblank
  simp only [Prod.mk.injEq] at hblank
  omega

/-- A text that makes a word of a line: not empty, without blanks, commas and
semicolons. -/
def IsWord (t : Text) : Prop :=
  t ≠ [] ∧ ∀ c ∈ t, c ≠ ';' ∧ c ≠ ',' ∧ Text.isBlank c = false

instance (t : Text) : Decidable (IsWord t) :=
  decidable_of_iff (t ≠ [] ∧ t.all (fun c => c != ';' && c != ',' && !Text.isBlank c) = true)
    (by simp [IsWord, and_assoc])

namespace IsWord

variable {t u v : Text}

theorem not_separator (h : IsWord t) {c : Char} (hc : c ∈ t) : isSeparator c = false := by
  obtain ⟨-, hcomma, hblank⟩ := h.2 c hc
  cases hsep : isSeparator c with
  | false => rfl
  | true =>
      simp only [isSeparator, Bool.or_eq_true, beq_iff_eq] at hsep
      rcases hsep with ((((rfl | rfl) | rfl) | rfl) | rfl) | rfl
      · exact absurd hblank (by decide)
      · exact absurd hblank (by decide)
      · exact absurd hblank (by decide)
      · exact absurd hblank (by decide)
      · exact absurd hblank (by decide)
      · exact absurd rfl hcomma

theorem newline_not_mem (h : IsWord t) : '\n' ∉ t := by
  intro hmem
  exact absurd (h.2 _ hmem).2.2 (by decide)

/-- Nothing is trimmed from a line that begins and ends with a word. -/
theorem trim_pair (hu : IsWord u) (hv : IsWord v) :
    Text.trim (u ++ ' ' :: v) = u ++ ' ' :: v := by
  obtain ⟨first, u, rfl⟩ := List.exists_cons_of_ne_nil hu.1
  obtain rfl | ⟨v, last, rfl⟩ := List.eq_nil_or_concat' v
  · exact absurd rfl hv.1
  have hfirst : Text.isBlank first = false := (hu.2 first List.mem_cons_self).2.2
  have hlast : Text.isBlank last = false := (hv.2 last (by simp)).2.2
  simp [Text.trim, hfirst, hlast]

end IsWord

namespace Reader

variable {complete : List Text}

/-- Inside a word the reader collects what can stand in one. -/
theorem foldl_feed_word {t : Text} (read : Text)
    (h : ∀ c ∈ t, c ≠ ';' ∧ isSeparator c = false) :
    t.foldl feed ⟨complete, .word read⟩ = ⟨complete, .word (t.reverse ++ read)⟩ := by
  induction t generalizing read with
  | nil => rfl
  | cons c rest ih =>
      rw [List.forall_mem_cons] at h
      simp [feed, h.1.1, h.1.2, ih _ h.2]

/-- From a gap the reader takes up a word. -/
theorem foldl_feed_gap {t : Text} (h : IsWord t) :
    t.foldl feed ⟨complete, .gap⟩ = ⟨complete, .word t.reverse⟩ := by
  have hplain : ∀ c ∈ t, c ≠ ';' ∧ isSeparator c = false :=
    fun c hc => ⟨(h.2 c hc).1, h.not_separator hc⟩
  obtain ⟨first, rest, rfl⟩ := List.exists_cons_of_ne_nil h.1
  rw [List.forall_mem_cons] at hplain
  simp [feed, hplain.1.1, hplain.1.2, foldl_feed_word _ hplain.2]

end Reader

/-- **Two words with a space in between are read as these two words.** -/
theorem words_pair {u v : Text} (hu : IsWord u) (hv : IsWord v) :
    words (Text.trim (u ++ ' ' :: v)) = [u, v] := by
  rw [IsWord.trim_pair hu hv, words, List.foldl_append, Reader.foldl_feed_gap hu,
    List.foldl_cons]
  have hspace : Reader.feed ⟨[], .word u.reverse⟩ ' ' = ⟨[u], .gap⟩ := by
    simp [Reader.feed, Reader.finished, isSeparator]
  rw [hspace, Reader.foldl_feed_gap hv]
  simp [Reader.words, Reader.finished]

/-! ### Numerals are words -/

namespace Numeral

/-- The characters of numerals: digits, signs and the mark of hexadecimals. -/
def isNumeralChar (c : Char) : Bool :=
  decide (digitValue c < 16) || c == '-' || c == '+' || c == 'H' || c == 'h'

/-- Digits that are read consist of numeral characters. -/
theorem isNumeralChar_of_magnitude? {base : Nat} (hbase : base ≤ 16) {digits : Text} {n : Nat}
    (h : magnitude? base digits = some n) : digits ≠ [] ∧ ∀ c ∈ digits, isNumeralChar c = true := by
  unfold magnitude? at h
  split at h
  · rename_i hdigits
    refine ⟨hdigits.1, fun c hc => ?_⟩
    have hdigit : digitValue c < base := by
      simpa [isDigit] using List.all_eq_true.mp hdigits.2 c hc
    simp [isNumeralChar, Nat.lt_of_lt_of_le hdigit hbase]
  · exact nomatch h

/-- Digits with a sign consist of numeral characters. -/
theorem isNumeralChar_of_signed? {base : Nat} (hbase : base ≤ 16) {t : Text} {v : Int}
    (h : signed? base t = some v) : t ≠ [] ∧ ∀ c ∈ t, isNumeralChar c = true := by
  unfold signed? at h
  split at h
  all_goals
    obtain ⟨hw, -⟩ := Option.filter_eq_some_iff.mp h
    obtain ⟨w, hw, -⟩ := Option.map_eq_some_iff.mp hw
    obtain ⟨n, hn, -⟩ := Option.bind_eq_some_iff.mp hw
    obtain ⟨hne, hall⟩ := isNumeralChar_of_magnitude? hbase hn
  · exact ⟨List.cons_ne_nil _ _, List.forall_mem_cons.mpr ⟨rfl, hall⟩⟩
  · exact ⟨List.cons_ne_nil _ _, List.forall_mem_cons.mpr ⟨rfl, hall⟩⟩
  · exact ⟨hne, hall⟩

/-- A numeral consists of numeral characters. -/
theorem isNumeralChar_of_read? {t : Text} {v : Int} (h : read? t = some v) :
    t ≠ [] ∧ ∀ c ∈ t, isNumeralChar c = true := by
  unfold read? at h
  split at h
  · rename_i hhex
    obtain ⟨hne, hall⟩ := isNumeralChar_of_signed? (Nat.le_refl 16) h
    obtain rfl | ⟨digits, last, rfl⟩ := List.eq_nil_or_concat' t
    · exact absurd rfl hne
    rw [List.dropLast_concat] at hall
    have hlast : last = 'H' ∨ last = 'h' := by simpa [isHex] using hhex
    refine ⟨by simp, List.forall_mem_append.mpr ⟨hall, List.forall_mem_singleton.mpr ?_⟩⟩
    rcases hlast with rfl | rfl <;> rfl
  · exact isNumeralChar_of_signed? (by decide) h

/-- A digit is an ASCII digit or one of the first six letters. -/
theorem toNat_of_digitValue_lt {c : Char} (h : digitValue c < 16) :
    (48 ≤ c.toNat ∧ c.toNat ≤ 57) ∨ (65 ≤ c.toNat ∧ c.toNat ≤ 70) ∨
      (97 ≤ c.toNat ∧ c.toNat ≤ 102) := by
  unfold digitValue at h
  split at h
  · rename_i hrange
    exact Or.inl hrange
  · split at h
    · rename_i hrange
      exact Or.inr (Or.inl hrange)
    · split at h
      · rename_i hrange
        exact Or.inr (Or.inr hrange)
      · exact absurd h (Nat.lt_irrefl 16)

/-- **A numeral is a word.** -/
theorem isWord_of_read? {t : Text} {v : Int} (h : read? t = some v) : IsWord t := by
  obtain ⟨hne, hall⟩ := isNumeralChar_of_read? h
  refine ⟨hne, fun c hc => ?_⟩
  have hchar := hall c hc
  simp only [isNumeralChar, Bool.or_eq_true, decide_eq_true_eq, beq_iff_eq] at hchar
  rcases hchar with (((hdigit | rfl) | rfl) | rfl) | rfl
  · have hrange := toNat_of_digitValue_lt hdigit
    refine ⟨?_, ?_, Text.isBlank_of_visible (by omega) (by omega)⟩
    · rintro rfl
      exact absurd hrange (by decide)
    · rintro rfl
      exact absurd hrange (by decide)
  · decide
  · decide
  · decide
  · decide

end Numeral

end SegmentAssembler
