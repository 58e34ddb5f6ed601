import SegmentAssembler.Proofs.Spacing

/-!
# Lines, lexemes and words

The reader of words goes through a text once, with a head that stands in a gap,
in a word or in a comment.  This file says without the head which words it finds,
in two ways.

*Line by line.*  Split the text at its line feeds, cut each line off at its first
semicolon, split what is left at the separators and leave out the empty parts.

*Lexeme by lexeme.*  As long as there is text, cut off the longest piece that is
a run of blanks or a comment, a comma, or a word:

    MOV  AX,X;load;       [MOV][  ][AX][,][X][;load;]

* `words_append_newline` — a text has the words of its parts, if it is taken apart
  at a line feed;
* `words_eq_wordsByLine` — so the reader finds the words of the lines;
* `isLongest_cons_iff` — the longest lexeme is the one that cannot go on, and so
  every text falls into lexemes (`exists_lexed`);
* `Lexed.words_eq` — the reader finds the words among them;
* `words_joinWords` — words that are put together with separators in between are
  read back as they were.
-/

namespace SegmentAssembler

/-! ### Line by line -/

/-- The separators within a line. -/
def isLineSeparator (c : Char) : Bool := [' ', '\t', '\r', '\x0c', ','].contains c

/-- The words of one line: what stands between separators in front of the first
semicolon. -/
def lineWords (line : Text) : List Text :=
  ((line.takeWhile fun c => c != ';').splitOnP isLineSeparator).filter fun part => part != []

/-- The words of a text, line by line. -/
def wordsByLine (t : Text) : List Text := (t.splitOn '\n').flatMap lineWords

/-- A line feed completes the word in front of it and ends a comment. -/
theorem Reader.feed_newline (r : Reader) : r.feed '\n' = ⟨r.finished, .gap⟩ := by
  obtain ⟨complete, head⟩ := r
  cases head <;> rfl

/-- **A line feed parts the words of a text.** -/
theorem words_append_newline (a b : Text) : words (a ++ '\n' :: b) = words a ++ words b := by
  rw [words, List.foldl_append, List.foldl_cons, Reader.feed_newline, Reader.words_foldl_feed]
  rfl

/-- The words of lines that are put together are the words of the lines. -/
theorem words_joinLines (lines : List Text) : words (joinLines lines) = lines.flatMap words := by
  unfold joinLines
  induction lines with
  | nil => rfl
  | cons line more ih =>
      cases more with
      | nil => simp
      | cons next further =>
          rw [List.intercalate_cons_cons, List.append_assoc, List.singleton_append,
            words_append_newline, ih]
          rfl

section Line

variable {s : Text}

/-- Within a line both kinds of separators are the same. -/
theorem isLineSeparator_eq {c : Char} (hc : c ≠ '\n') : isLineSeparator c = isSeparator c := by
  rw [Bool.eq_iff_iff]
  simp [isLineSeparator, isSeparator, hc, or_assoc]

/-- Outside comments the reader splits a line at its separators.  In a gap there is
nothing to put in front of the next part, in a word there is what has been read. -/
theorem wordsFrom_eq_splitOnP (hs : ∀ c ∈ s, c ≠ ';' ∧ c ≠ '\n') :
    wordsFrom .gap s = (s.splitOnP isLineSeparator).filter (fun part => part != []) ∧
    ∀ read, read ≠ [] → wordsFrom (.word read) s =
      (s.splitOnPPrepend isLineSeparator read).filter fun part => part != [] := by
  induction s with
  | nil =>
      refine ⟨rfl, ?_⟩
      intro read hread
      simp [wordsFrom_word_nil, hread]
  | cons c rest ih =>
      obtain ⟨⟨hsemicolon, hnewline⟩, hrest⟩ := List.forall_mem_cons.mp hs
      obtain ⟨hgap, hword⟩ := ih hrest
      have hclass := isLineSeparator_eq hnewline
      cases hsep : isSeparator c with
      | true =>
          rw [hsep] at hclass
          constructor
          · rw [wordsFrom_gap_separator hsep, hgap, List.splitOnP_cons_eq_if_splitOnPPrepend,
              if_pos hclass, List.filter_cons_of_neg (by simp)]
          · intro read hread
            rw [wordsFrom_word_separator _ hsep, hgap, List.splitOnPPrepend_cons_pos hclass,
              List.filter_cons_of_pos (by simpa using hread)]
      | false =>
          rw [hsep] at hclass
          have hletter : ¬ isLineSeparator c = true := Bool.eq_false_iff.mp hclass
          constructor
          · rw [wordsFrom_gap_letter hsemicolon hsep, hword [c] (List.cons_ne_nil _ _),
              List.splitOnP_cons_eq_if_splitOnPPrepend, if_neg hletter]
          · intro read _
            rw [wordsFrom_word_letter _ hsemicolon hsep, hword (c :: read) (List.cons_ne_nil _ _),
              List.splitOnPPrepend_cons_neg hclass]

/-- The reader finds the words of a line. -/
theorem words_eq_lineWords {line : Text} (hline : '\n' ∉ line) : words line = lineWords line := by
  let front := line.takeWhile fun c => c != ';'
  have hplain : ∀ c ∈ front, c ≠ ';' ∧ c ≠ '\n' := by
    intro c hc
    constructor
    · simpa using List.mem_takeWhile_imp hc
    · intro heq
      exact hline (heq ▸ (List.takeWhile_sublist _).mem hc)
  have hfront : words line = words front := by
    have hparts : front ++ line.dropWhile (fun c => c != ';') = line :=
      List.takeWhile_append_dropWhile
    cases hback : line.dropWhile fun c => c != ';' with
    | nil => rw [← hparts, hback, List.append_nil]
    | cons first remark =>
        have hfirst : first = ';' := by
          have hstop := List.head?_dropWhile_not (fun c => c != ';') line
          rw [hback] at hstop
          simpa using hstop
        have hremark : '\n' ∉ remark := by
          intro hmem
          refine hline ((List.dropWhile_sublist fun c => c != ';').mem ?_)
          rw [hback]
          exact List.mem_cons_of_mem _ hmem
        rw [← hparts, hback, hfirst]
        exact (SpacingEdit.comment hremark).words_eq
  rw [hfront]
  exact (wordsFrom_eq_splitOnP hplain).1

end Line

/-- **The reader finds the words of the lines.** -/
theorem words_eq_wordsByLine (t : Text) : words t = wordsByLine t := by
  have hlines : joinLines (t.splitOn '\n') = t := List.intercalate_splitOn '\n'
  calc words t
      = words (joinLines (t.splitOn '\n')) := by rw [hlines]
    _ = (t.splitOn '\n').flatMap words := words_joinLines _
    _ = wordsByLine t := List.flatMap_congr fun line hline =>
        words_eq_lineWords (newline_not_mem_of_mem_splitOn hline)

/-! ### One piece after the other -/

section Pieces

variable {s t : Text}

/-- Separators in front of a text add no word. -/
theorem words_append_separators (hs : ∀ c ∈ s, isSeparator c = true) :
    words (s ++ t) = words t := by
  induction s with
  | nil => rfl
  | cons c rest ih =>
      obtain ⟨hc, hrest⟩ := List.forall_mem_cons.mp hs
      rw [List.cons_append, ← ih hrest]
      exact wordsFrom_gap_separator hc

/-- A comment that is not cut short is passed over. -/
theorem words_append_comment (hs : '\n' ∉ s) (hstop : ∀ c ∈ t.head?, c = '\n') :
    words (';' :: s ++ t) = words t := by
  have hcomment : (';' :: s).foldl Reader.feed {} = ⟨[], .comment⟩ :=
    Reader.foldl_feed_comment hs []
  rw [words, List.foldl_append, hcomment]
  cases t with
  | nil => rfl
  | cons c rest =>
      obtain rfl : c = '\n' := hstop c rfl
      rfl

/-- A word that is not cut short is read as a word. -/
theorem words_append_letters (hne : s ≠ []) (hs : ∀ c ∈ s, c ≠ ';' ∧ isSeparator c = false)
    (hstop : ∀ c ∈ t.head?, c = ';' ∨ isSeparator c = true) : words (s ++ t) = s :: words t := by
  have hread : words (s ++ t) = wordsFrom (.word s.reverse) t := by
    obtain ⟨first, rest, rfl⟩ := List.exists_cons_of_ne_nil hne
    obtain ⟨⟨hsemicolon, hsep⟩, hrest⟩ := List.forall_mem_cons.mp hs
    have hfirst : words (first :: rest ++ t) = wordsFrom (.word [first]) (rest ++ t) :=
      wordsFrom_gap_letter hsemicolon hsep
    rw [hfirst, wordsFrom, List.foldl_append, Reader.foldl_feed_word _ hrest, List.reverse_cons]
    rfl
  rw [hread]
  cases t with
  | nil => rw [wordsFrom_word_nil, List.reverse_reverse]; rfl
  | cons c rest =>
      rcases hstop c rfl with rfl | hsep
      · rw [wordsFrom_word_semicolon, List.reverse_reverse]
        rfl
      · rw [wordsFrom_word_separator _ hsep, List.reverse_reverse, ← wordsFrom_gap_separator hsep]
        rfl

end Pieces

/-! ### Lexeme by lexeme -/

/-- Blanks of the source language. -/
def isSpace (c : Char) : Bool := [' ', '\t', '\r', '\n', '\x0c'].contains c

/-- What a word is made of. -/
def isLetter (c : Char) : Bool := !([' ', '\t', '\r', '\n', '\x0c', ',', ';'].contains c)

/-- The kinds of lexemes: those that are passed over, commas and words. -/
inductive LexemeKind where
  | skip
  | comma
  | word
deriving DecidableEq, Repr

/-- The lexemes of each kind. -/
inductive IsLexeme : LexemeKind → Text → Prop
  | blanks {s : Text} (hne : s ≠ []) (hs : ∀ c ∈ s, isSpace c = true) : IsLexeme .skip s
  | comment {remark : Text} (hremark : '\n' ∉ remark) : IsLexeme .skip (';' :: remark)
  | comma : IsLexeme .comma [',']
  | word {s : Text} (hne : s ≠ []) (hs : ∀ c ∈ s, isLetter c = true) : IsLexeme .word s

/-- A lexeme in front of the rest of a text, such that no longer piece of the text
is a lexeme of any kind. -/
structure IsLongest (kind : LexemeKind) (s rest : Text) : Prop where
  lexeme : IsLexeme kind s
  longest : ∀ other piece, IsLexeme other piece → piece <+: s ++ rest → piece.length ≤ s.length

/-- A text falls into lexemes, the longest one first. -/
inductive Lexed : Text → List (LexemeKind × Text) → Prop
  | nil : Lexed [] []
  | cons {kind : LexemeKind} {s rest : Text} {more : List (LexemeKind × Text)}
      (hs : IsLongest kind s rest) (hrest : Lexed rest more) :
      Lexed (s ++ rest) ((kind, s) :: more)

/-- The words among lexemes. -/
def lexemeWords (lexemes : List (LexemeKind × Text)) : List Text :=
  (lexemes.filter fun lexeme => lexeme.1 == .word).map Prod.snd

section Characters

variable {c : Char}

theorem isSeparator_of_isSpace (h : isSpace c = true) : isSeparator c = true :=
  isSeparator_of_plain (by simpa [isSpace] using h)

/-- Letters are what neither separates words nor begins a comment. -/
theorem isLetter_iff : isLetter c = true ↔ c ≠ ';' ∧ isSeparator c = false := by
  simp only [isLetter, isSeparator, Bool.not_eq_true', List.contains_eq_mem, List.mem_cons,
    List.not_mem_nil, or_false, decide_eq_false_iff_not, not_or, Bool.or_eq_false_iff,
    beq_eq_false_iff_ne]
  grind

theorem isLetter_eq_false_iff : isLetter c = false ↔ c = ';' ∨ isSeparator c = true := by
  rw [← Bool.not_eq_true, isLetter_iff, not_and_or, not_not, Bool.not_eq_false]

/-- What is neither a letter nor a mark is a blank. -/
theorem isSpace_iff : isSpace c = true ↔ isLetter c = false ∧ c ≠ ';' ∧ c ≠ ',' := by
  simp only [isSpace, isLetter, List.contains_eq_mem, List.mem_cons, List.not_mem_nil, or_false,
    decide_eq_true_eq, Bool.not_eq_false']
  grind

theorem ne_comma_of_isLetter (h : isLetter c = true) : c ≠ ',' := by
  intro heq
  rw [heq] at h
  exact absurd h (by decide)

end Characters

/-- The kind of a lexeme shows in its first character. -/
def LexemeKind.of (c : Char) : LexemeKind :=
  if c = ',' then .comma else if isLetter c then .word else .skip

/-- Whether a lexeme that begins with one character can go on with the other. -/
def goesOnWith (c d : Char) : Bool :=
  if c = ';' then d != '\n' else if c = ',' then false
  else if isLetter c then isLetter d else isSpace d

section FirstCharacter

variable {c : Char}

/-- A lexeme that begins with a letter is a word. -/
@[simp] theorem LexemeKind.of_letter (h : isLetter c = true) : LexemeKind.of c = .word := by
  simp [LexemeKind.of, h, ne_comma_of_isLetter h]

/-- A lexeme that begins with blank space is passed over. -/
@[simp] theorem LexemeKind.of_space (h : isSpace c = true) : LexemeKind.of c = .skip := by
  obtain ⟨hletter, -, hcomma⟩ := isSpace_iff.mp h
  simp [LexemeKind.of, hletter, hcomma]

/-- A word goes on with letters. -/
@[simp] theorem goesOnWith_letter (h : isLetter c = true) (d : Char) :
    goesOnWith c d = isLetter d := by
  simp [goesOnWith, h, ne_comma_of_isLetter h, (isLetter_iff.mp h).1]

/-- Blank space goes on with blank space. -/
@[simp] theorem goesOnWith_space (h : isSpace c = true) (d : Char) :
    goesOnWith c d = isSpace d := by
  obtain ⟨hletter, hsemicolon, hcomma⟩ := isSpace_iff.mp h
  simp [goesOnWith, hletter, hsemicolon, hcomma]

@[simp] theorem goesOnWith_semicolon (d : Char) : goesOnWith ';' d = (d != '\n') := rfl

@[simp] theorem goesOnWith_comma (d : Char) : goesOnWith ',' d = false := rfl

end FirstCharacter

section Longest

variable {kind : LexemeKind} {c : Char} {s rest : Text}

theorem not_isLexeme_nil : ¬ IsLexeme kind [] := by
  intro h
  cases h with
  | blanks hne _ => exact hne rfl
  | word hne _ => exact hne rfl

/-- Lexemes by their first character. -/
theorem isLexeme_cons_iff :
    IsLexeme kind (c :: s) ↔ kind = .of c ∧ s.all (goesOnWith c) = true := by
  rw [List.all_eq_true]
  constructor
  · intro h
    cases h with
    | blanks _ hs =>
        obtain ⟨hc, hbody⟩ := List.forall_mem_cons.mp hs
        simpa [hc] using hbody
    | comment hremark =>
        refine ⟨rfl, ?_⟩
        intro d hd
        have hne : d ≠ '\n' := fun heq => hremark (heq ▸ hd)
        simpa using hne
    | comma => exact ⟨rfl, List.forall_mem_nil _⟩
    | word _ hs =>
        obtain ⟨hc, hbody⟩ := List.forall_mem_cons.mp hs
        simpa [hc] using hbody
  · intro h
    obtain ⟨rfl, hbody⟩ := h
    by_cases hsemicolon : c = ';'
    · subst hsemicolon
      refine .comment ?_
      intro hmem
      exact absurd (hbody _ hmem) (by decide)
    · by_cases hcomma : c = ','
      · subst hcomma
        cases s with
        | nil => exact .comma
        | cons d more => exact absurd (hbody d List.mem_cons_self) (by simp)
      · cases hletter : isLetter c with
        | true =>
            simp only [goesOnWith_letter hletter] at hbody
            rw [LexemeKind.of_letter hletter]
            exact .word (List.cons_ne_nil _ _) (List.forall_mem_cons.mpr ⟨hletter, hbody⟩)
        | false =>
            have hspace := isSpace_iff.mpr ⟨hletter, hsemicolon, hcomma⟩
            simp only [goesOnWith_space hspace] at hbody
            rw [LexemeKind.of_space hspace]
            exact .blanks (List.cons_ne_nil _ _) (List.forall_mem_cons.mpr ⟨hspace, hbody⟩)

/-- **The longest lexeme is the one that cannot go on.** -/
theorem isLongest_cons_iff :
    IsLongest kind (c :: s) rest ↔
      kind = .of c ∧ s.all (goesOnWith c) = true ∧ rest.head?.any (goesOnWith c) = false := by
  constructor
  · intro h
    obtain ⟨hkind, hs⟩ := isLexeme_cons_iff.mp h.lexeme
    refine ⟨hkind, hs, ?_⟩
    cases rest with
    | nil => rfl
    | cons d more =>
        by_contra hgoes
        have hlexeme : IsLexeme kind (c :: (s ++ [d])) := by
          refine isLexeme_cons_iff.mpr ⟨hkind, ?_⟩
          rw [List.all_append, hs]
          simpa using hgoes
        have hlength := h.longest kind _ hlexeme ⟨more, by simp⟩
        simp only [List.length_cons, List.length_append, List.length_nil] at hlength
        omega
  · intro h
    obtain ⟨hkind, hs, hstop⟩ := h
    refine ⟨isLexeme_cons_iff.mpr ⟨hkind, hs⟩, ?_⟩
    intro other piece hpiece hfront
    cases piece with
    | nil => exact absurd hpiece not_isLexeme_nil
    | cons e body =>
        rw [List.cons_append, List.cons_prefix_cons] at hfront
        obtain ⟨rfl, hbody⟩ := hfront
        obtain ⟨-, hgoes⟩ := isLexeme_cons_iff.mp hpiece
        by_contra hlonger
        simp only [List.length_cons, Nat.add_le_add_iff_right, Nat.not_le] at hlonger
        -- a longer piece would hold the character behind the lexeme
        cases rest with
        | nil =>
            have hlength := hbody.length_le
            rw [List.append_nil] at hlength
            omega
        | cons d more =>
            have hlength : (s ++ [d]).length ≤ body.length := by
              rw [List.length_append, List.length_singleton]
              omega
            have hd : d ∈ body :=
              (List.prefix_of_prefix_length_le ⟨more, by simp⟩ hbody hlength).subset (by simp)
            have hyes := List.all_eq_true.mp hgoes d hd
            simp [hyes] at hstop

end Longest

/-- **Every text falls into lexemes.** -/
theorem exists_lexed : (t : Text) → ∃ lexemes, Lexed t lexemes
  | [] => ⟨[], .nil⟩
  | c :: t => by
      obtain ⟨more, hmore⟩ := exists_lexed (t.dropWhile (goesOnWith c))
      have hlongest : IsLongest (.of c) (c :: t.takeWhile (goesOnWith c))
          (t.dropWhile (goesOnWith c)) := by
        refine isLongest_cons_iff.mpr ⟨rfl, List.all_takeWhile, ?_⟩
        have hstop := List.head?_dropWhile_not (goesOnWith c) t
        cases hhead : (t.dropWhile (goesOnWith c)).head? with
        | none => rfl
        | some d =>
            rw [hhead] at hstop
            simpa using hstop
      have hlexed := Lexed.cons hlongest hmore
      rw [List.cons_append, List.takeWhile_append_dropWhile] at hlexed
      exact ⟨_, hlexed⟩
termination_by t => t.length
decreasing_by
  have hlength := (List.dropWhile_sublist (goesOnWith c) (l := t)).length_le
  simp only [List.length_cons]
  omega

/-- The longest lexeme is read as a word, if it is one, and else passed over. -/
theorem IsLongest.words_append {kind : LexemeKind} {s rest : Text} (h : IsLongest kind s rest) :
    words (s ++ rest) = lexemeWords [(kind, s)] ++ words rest := by
  cases h.lexeme with
  | blanks _ hs => exact words_append_separators fun c hc => isSeparator_of_isSpace (hs c hc)
  | comment hremark =>
      obtain ⟨-, -, hstop⟩ := isLongest_cons_iff.mp h
      refine words_append_comment hremark ?_
      intro c hc
      rw [hc] at hstop
      simpa using hstop
  | comma => exact words_append_separators (List.forall_mem_singleton.mpr rfl)
  | word hne hs =>
      obtain ⟨first, body, rfl⟩ := List.exists_cons_of_ne_nil hne
      obtain ⟨-, -, hstop⟩ := isLongest_cons_iff.mp h
      refine words_append_letters hne (fun c hc => isLetter_iff.mp (hs c hc)) ?_
      intro c hc
      refine isLetter_eq_false_iff.mp ?_
      rw [hc] at hstop
      rwa [Option.any_some, goesOnWith_letter (hs first List.mem_cons_self)] at hstop

/-- **The words of a text are the words among its lexemes.** -/
theorem Lexed.words_eq {t : Text} {lexemes : List (LexemeKind × Text)} (h : Lexed t lexemes) :
    words t = lexemeWords lexemes := by
  induction h with
  | nil => rfl
  | @cons kind s rest more hs hrest ih =>
      rw [hs.words_append, ih, lexemeWords, lexemeWords, lexemeWords, ← List.map_append,
        ← List.filter_append, List.singleton_append]

/-! ### Words put together -/

/-- Words one behind the other, each with the next gap behind it as long as there
are gaps. -/
def joinWords : List Text → List Text → Text
  | [], _ => []
  | w :: ws, [] => w ++ joinWords ws []
  | w :: ws, gap :: gaps => w ++ gap ++ joinWords ws gaps

/-- A run of separators, line feeds among them. -/
def IsSeparation (gap : Text) : Prop := gap ≠ [] ∧ ∀ c ∈ gap, isSeparator c = true

instance (gap : Text) : Decidable (IsSeparation gap) :=
  decidable_of_iff (gap ≠ [] ∧ gap.all isSeparator = true) (by simp [IsSeparation])

/-- **Words with gaps between them are read back as they were.** -/
theorem words_joinWords {ws gaps : List Text} (hws : ∀ w ∈ ws, IsLexeme .word w)
    (hgaps : ∀ gap ∈ gaps, IsSeparation gap) (hlength : ws.length ≤ gaps.length + 1) :
    words (joinWords ws gaps) = ws := by
  induction ws generalizing gaps with
  | nil => rfl
  | cons w ws ih =>
      obtain ⟨hw, hmore⟩ := List.forall_mem_cons.mp hws
      cases hw with
      | word hne hletters =>
          have hplain : ∀ c ∈ w, c ≠ ';' ∧ isSeparator c = false :=
            fun c hc => isLetter_iff.mp (hletters c hc)
          cases gaps with
          | nil =>
              obtain rfl : ws = [] := by
                rw [List.length_cons, List.length_nil] at hlength
                exact List.eq_nil_of_length_eq_zero (by omega)
              exact words_append_letters hne hplain (by simp [joinWords])
          | cons gap gaps =>
              obtain ⟨⟨hgap, hseparators⟩, hfurther⟩ := List.forall_mem_cons.mp hgaps
              have hstop : ∀ c ∈ (gap ++ joinWords ws gaps).head?,
                  c = ';' ∨ isSeparator c = true := by
                intro c hc
                rw [List.head?_append_of_ne_nil gap hgap] at hc
                exact Or.inr (hseparators c (List.mem_of_mem_head? hc))
              rw [joinWords, List.append_assoc, words_append_letters hne hplain hstop,
                words_append_separators hseparators,
                ih hmore hfurther (by simpa using hlength)]

/-- **What the words of a text are.**

* They are the non-empty parts between separators of its lines, each cut off at its
  first semicolon.
* They are the words among its lexemes, where the longest one is taken at every
  place; and every text falls into lexemes so.
* At a line feed the words fall into those of the text in front of it and those of
  the text behind it.
* Words with a run of separators between any two of them are read back as they
  were. -/
theorem words_read_exactly :
    (∀ t, words t = wordsByLine t) ∧
    (∀ t, (∃ lexemes, Lexed t lexemes) ∧
      ∀ lexemes, Lexed t lexemes → words t = lexemeWords lexemes) ∧
    (∀ a b, words (a ++ '\n' :: b) = words a ++ words b) ∧
    ∀ ws gaps, (∀ w ∈ ws, IsLexeme .word w) → (∀ gap ∈ gaps, IsSeparation gap) →
      ws.length ≤ gaps.length + 1 → words (joinWords ws gaps) = ws :=
  ⟨words_eq_wordsByLine, fun t => ⟨exists_lexed t, fun _ h => h.words_eq⟩, words_append_newline,
    fun _ _ hws hgaps hlength => words_joinWords hws hgaps hlength⟩

/-- A semicolon within a comment hides nothing more, the comment ends with its line,
and a vertical tab or a wide space makes no gap. -/
theorem words_read_exactly_wide_space :
    let t := ['A', '\x0b', 'B', ',', ';', 'b', ';', '\n', '\t', '\u3000']
    let lexemes : List (LexemeKind × Text) :=
      [(.word, ['A', '\x0b', 'B']), (.comma, [',']), (.skip, [';', 'b', ';']),
        (.skip, ['\n', '\t']), (.word, ['\u3000'])]
    let ws : List Text := [['A', '\x0b', 'B'], ['\u3000']]
    let gaps : List Text := [[',', '\n', ' ']]
    (Lexed t lexemes ∧ words t = lexemeWords lexemes) ∧
    (∀ w ∈ ws, IsLexeme .word w) ∧ (∀ gap ∈ gaps, IsSeparation gap) ∧
      ws.length ≤ gaps.length + 1 ∧ words (joinWords ws gaps) = ws ∧ words t = ws := by
  intro t lexemes ws gaps
  have hlexed : Lexed t lexemes :=
    @Lexed.cons _ ['A', '\x0b', 'B'] _ _ (isLongest_cons_iff.mpr (by decide)) <|
    @Lexed.cons _ [','] _ _ (isLongest_cons_iff.mpr (by decide)) <|
    @Lexed.cons _ [';', 'b', ';'] _ _ (isLongest_cons_iff.mpr (by decide)) <|
    @Lexed.cons _ ['\n', '\t'] _ _ (isLongest_cons_iff.mpr (by decide)) <|
    @Lexed.cons _ ['\u3000'] _ _ (isLongest_cons_iff.mpr (by decide)) .nil
  have hws : ∀ w ∈ ws, IsLexeme .word w :=
    List.forall_mem_cons.mpr ⟨isLexeme_cons_iff.mpr (by decide),
      List.forall_mem_singleton.mpr (isLexeme_cons_iff.mpr (by decide))⟩
  have hgaps : ∀ gap ∈ gaps, IsSeparation gap := by decide
  obtain ⟨-, hlexemes, -, hjoin⟩ := words_read_exactly
  exact ⟨⟨hlexed, (hlexemes t).2 lexemes hlexed⟩, hws, hgaps, by decide,
    hjoin ws gaps hws hgaps (by decide), by decide⟩

end SegmentAssembler
