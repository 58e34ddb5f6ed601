import Mathlib.Data.List.TakeWhile
import SegmentAssembler.Proofs.SourceEditing

/-!
# Words in the place of others

A word of a line is replaced where it stands, and everything around it, the
gaps, the comment and the other words, is copied as it is:

    MOV AX , count   ; the count so far
    MOV AX , total   ; the count so far

The writer goes through the line once, like the reader of words.  It stands in
a gap, or it copies the word under it, or it has written a new word and skips
the rest of the old one.

* `words_rewriteWords` — the words of the new line are the old ones with the
  new ones in their places;
* `Text.trim_between` — a line is rewritten between the blanks at its ends, and
  trimming it afterwards takes off these blanks and no more.
-/

namespace SegmentAssembler

/-! ### Reading from the middle of a text -/

/-- The words that are still to be completed when the head stands so. -/
def wordsFrom (head : Head) (t : Text) : List Text := (t.foldl Reader.feed ⟨[], head⟩).words

/-- Words that are complete stay in front of those to come. -/
theorem Reader.words_foldl_feed (complete : List Text) (head : Head) (t : Text) :
    (t.foldl feed ⟨complete, head⟩).words = complete.reverse ++ wordsFrom head t := by
  induction t generalizing complete head with
  | nil => cases head <;> simp [wordsFrom, words, finished]
  | cons c rest ih =>
      have hfeed : feed ⟨complete, head⟩ c =
          ⟨(feed ⟨[], head⟩ c).complete ++ complete, (feed ⟨[], head⟩ c).head⟩ := by
        cases head with
        | gap =>
            simp only [feed]
            split
            · rfl
            · split <;> rfl
        | comment =>
            simp only [feed]
            split <;> rfl
        | word read =>
            simp only [feed]
            split
            · rfl
            · split <;> rfl
      have hrest := ih (feed ⟨[], head⟩ c).complete (feed ⟨[], head⟩ c).head
      rw [wordsFrom, List.foldl_cons, List.foldl_cons, hfeed, ih, hrest, List.reverse_append,
        List.append_assoc]

section Reading

variable {c : Char} {t : Text}

theorem ne_semicolon_of_isSeparator (h : isSeparator c = true) : c ≠ ';' := by
  rintro rfl
  exact absurd h (by decide)

/-- A comment runs to the end of its line. -/
theorem wordsFrom_comment (h : '\n' ∉ t) : wordsFrom .comment t = [] := by
  induction t with
  | nil => rfl
  | cons d rest ih =>
      rw [List.mem_cons, not_or] at h
      have hfeed : Reader.feed ⟨[], .comment⟩ d = ⟨[], .comment⟩ := if_neg (Ne.symm h.1)
      rw [wordsFrom, List.foldl_cons, hfeed]
      exact ih h.2

/-- A semicolon begins a comment. -/
theorem wordsFrom_gap_semicolon : wordsFrom .gap (';' :: t) = wordsFrom .comment t := rfl

/-- Separators between words are passed over. -/
theorem wordsFrom_gap_separator (h : isSeparator c = true) :
    wordsFrom .gap (c :: t) = wordsFrom .gap t := by
  simp [wordsFrom, Reader.feed, h, ne_semicolon_of_isSeparator h]

/-- Any other character begins a word. -/
theorem wordsFrom_gap_letter (hc : c ≠ ';') (h : isSeparator c = false) :
    wordsFrom .gap (c :: t) = wordsFrom (.word [c]) t := by
  simp [wordsFrom, Reader.feed, h, hc]

theorem wordsFrom_word_nil (read : Text) : wordsFrom (.word read) [] = [read.reverse] := rfl

/-- A comment ends the word before it. -/
theorem wordsFrom_word_semicolon (read : Text) :
    wordsFrom (.word read) (';' :: t) = read.reverse :: wordsFrom .comment t :=
  Reader.words_foldl_feed [read.reverse] .comment t

/-- A separator ends the word before it. -/
theorem wordsFrom_word_separator (read : Text) (h : isSeparator c = true) :
    wordsFrom (.word read) (c :: t) = read.reverse :: wordsFrom .gap t := by
  have hfeed : Reader.feed ⟨[], .word read⟩ c = ⟨[read.reverse], .gap⟩ := by
    simp [Reader.feed, Reader.finished, h, ne_semicolon_of_isSeparator h]
  rw [wordsFrom, List.foldl_cons, hfeed]
  exact Reader.words_foldl_feed [read.reverse] .gap t

/-- A word goes on with any other character. -/
theorem wordsFrom_word_letter (read : Text) (hc : c ≠ ';') (h : isSeparator c = false) :
    wordsFrom (.word read) (c :: t) = wordsFrom (.word (c :: read)) t := by
  simp [wordsFrom, Reader.feed, h, hc]

/-- A word that follows a gap is taken up whole. -/
theorem wordsFrom_gap_append {x : Text} (h : IsWord x) (t : Text) :
    wordsFrom .gap (x ++ t) = wordsFrom (.word x.reverse) t := by
  rw [wordsFrom, List.foldl_append, Reader.foldl_feed_gap h]
  rfl

end Reading

/-! ### Writing -/

/-- New words for some of the words of a line, in their order: where there is
none, the old word stays, and so do all words behind the last one. -/
abbrev Edits := List (Option Text)

/-- Every new word can stand in a line. -/
def Edits.AreWords (es : Edits) : Prop := ∀ e ∈ es, ∀ x ∈ e, IsWord x

/-- The words after the edits. -/
def Edits.apply : Edits → List Text → List Text
  | [], ws => ws
  | _, [] => []
  | e :: es, w :: ws => e.getD w :: apply es ws

/-- Where the writer stands: in a gap, in a word that it copies, or in a word that
it has replaced. -/
inductive Pen where
  | gap
  | copying
  | skipping
deriving DecidableEq, Repr

/-- Go through the rest of a line and replace the words that have an edit. -/
def rewriteFrom : Pen → Edits → Text → Text
  | _, _, [] => []
  | pen, es, c :: t =>
    if c = ';' then c :: t
    else if isSeparator c then c :: rewriteFrom .gap es t
    else
      match pen, es with
      | .copying, es => c :: rewriteFrom .copying es t
      | .skipping, es => rewriteFrom .skipping es t
      | .gap, some x :: es => x ++ rewriteFrom .skipping es t
      | .gap, es => c :: rewriteFrom .copying es.tail t

/-- A line with some of its words replaced. -/
def rewriteWords (es : Edits) (t : Text) : Text := rewriteFrom .gap es t

section Writing

variable {c : Char} {t : Text} {es : Edits}

/-- A comment is copied as it stands. -/
theorem rewriteFrom_semicolon (pen : Pen) : rewriteFrom pen es (';' :: t) = ';' :: t := by
  simp [rewriteFrom]

/-- Separators are copied. -/
theorem rewriteFrom_separator (pen : Pen) (h : isSeparator c = true) :
    rewriteFrom pen es (c :: t) = c :: rewriteFrom .gap es t := by
  simp [rewriteFrom, h, ne_semicolon_of_isSeparator h]

/-- A word that stays is copied letter by letter. -/
theorem rewriteFrom_copying (hc : c ≠ ';') (h : isSeparator c = false) :
    rewriteFrom .copying es (c :: t) = c :: rewriteFrom .copying es t := by
  simp [rewriteFrom, h, hc]

/-- A word that was replaced is passed over letter by letter. -/
theorem rewriteFrom_skipping (hc : c ≠ ';') (h : isSeparator c = false) :
    rewriteFrom .skipping es (c :: t) = rewriteFrom .skipping es t := by
  simp [rewriteFrom, h, hc]

/-- The new word is written where the old one begins. -/
theorem rewriteFrom_gap_some (hc : c ≠ ';') (h : isSeparator c = false) (x : Text) :
    rewriteFrom .gap (some x :: es) (c :: t) = x ++ rewriteFrom .skipping es t := by
  simp [rewriteFrom, h, hc]

/-- A word without an edit stays. -/
theorem rewriteFrom_gap_none (hc : c ≠ ';') (h : isSeparator c = false) :
    rewriteFrom .gap (none :: es) (c :: t) = c :: rewriteFrom .copying es t := by
  simp [rewriteFrom, h, hc]

/-- Behind the last edit every word stays. -/
theorem rewriteFrom_gap_nil (hc : c ≠ ';') (h : isSeparator c = false) :
    rewriteFrom .gap [] (c :: t) = c :: rewriteFrom .copying [] t := by
  simp [rewriteFrom, h, hc]

end Writing

@[simp] theorem Edits.apply_nil (ws : List Text) : Edits.apply [] ws = ws := rfl

@[simp] theorem Edits.apply_no_words (es : Edits) : es.apply [] = [] := by
  cases es <;> rfl

@[simp] theorem Edits.apply_cons (e : Option Text) (es : Edits) (w : Text) (ws : List Text) :
    Edits.apply (e :: es) (w :: ws) = e.getD w :: es.apply ws := rfl

/-- What the reader makes of the rest of a line after the writer, in the three
places where the writer may stand. -/
structure ReadsBack (es : Edits) (t : Text) : Prop where
  gap : wordsFrom .gap (rewriteFrom .gap es t) = es.apply (wordsFrom .gap t)
  copying : ∀ read, wordsFrom (.word read) (rewriteFrom .copying es t) =
    Edits.apply (none :: es) (wordsFrom (.word read) t)
  skipping : ∀ read x, wordsFrom (.word (List.reverse x)) (rewriteFrom .skipping es t) =
    Edits.apply (some x :: es) (wordsFrom (.word read) t)

namespace ReadsBack

variable {c : Char} {t : Text} {es : Edits}

theorem nil (es : Edits) : ReadsBack es [] where
  gap := (es.apply_no_words).symm
  copying read := by simp [rewriteFrom, wordsFrom_word_nil]
  skipping read x := by simp [rewriteFrom, wordsFrom_word_nil]

/-- Behind a semicolon there is only a comment, and nothing is replaced in it. -/
theorem semicolon (hline : '\n' ∉ t) : ReadsBack es (';' :: t) where
  gap := by
    rw [rewriteFrom_semicolon, wordsFrom_gap_semicolon, wordsFrom_comment hline,
      Edits.apply_no_words]
  copying read := by
    rw [rewriteFrom_semicolon, wordsFrom_word_semicolon, wordsFrom_comment hline]
    simp
  skipping read x := by
    rw [rewriteFrom_semicolon, wordsFrom_word_semicolon, wordsFrom_word_semicolon,
      wordsFrom_comment hline]
    simp

/-- A separator completes the word in front of it, be it an old or a new one. -/
theorem separator (hsep : isSeparator c = true) (h : ReadsBack es t) : ReadsBack es (c :: t) where
  gap := by
    rw [rewriteFrom_separator _ hsep, wordsFrom_gap_separator hsep, wordsFrom_gap_separator hsep,
      h.gap]
  copying read := by
    rw [rewriteFrom_separator _ hsep, wordsFrom_word_separator _ hsep,
      wordsFrom_word_separator _ hsep, h.gap]
    simp
  skipping read x := by
    rw [rewriteFrom_separator _ hsep, wordsFrom_word_separator _ hsep,
      wordsFrom_word_separator _ hsep, h.gap]
    simp

/-- In a gap a letter begins a word, and the first edit says what becomes of it. -/
theorem gap_letter (hc : c ≠ ';') (hsep : isSeparator c = false) (hes : es.AreWords)
    (h : ∀ es : Edits, es.AreWords → ReadsBack es t) :
    wordsFrom .gap (rewriteFrom .gap es (c :: t)) = es.apply (wordsFrom .gap (c :: t)) := by
  rw [wordsFrom_gap_letter hc hsep]
  cases es with
  | nil =>
      rw [rewriteFrom_gap_nil hc hsep, wordsFrom_gap_letter hc hsep, (h [] hes).copying]
      cases wordsFrom (.word [c]) t with
      | nil => rfl
      | cons w ws => simp
  | cons e es =>
      obtain ⟨he, hmore⟩ := List.forall_mem_cons.mp hes
      cases e with
      | none =>
          rw [rewriteFrom_gap_none hc hsep, wordsFrom_gap_letter hc hsep, (h es hmore).copying]
      | some x =>
          rw [rewriteFrom_gap_some hc hsep, wordsFrom_gap_append (he x rfl),
            (h es hmore).skipping [c] x]

/-- A letter begins a word, which is kept or replaced. -/
theorem letter (hc : c ≠ ';') (hsep : isSeparator c = false) (hes : es.AreWords)
    (h : ∀ es : Edits, es.AreWords → ReadsBack es t) : ReadsBack es (c :: t) where
  gap := gap_letter hc hsep hes h
  copying read := by
    rw [rewriteFrom_copying hc hsep, wordsFrom_word_letter _ hc hsep,
      wordsFrom_word_letter _ hc hsep, (h es hes).copying]
  skipping read x := by
    rw [rewriteFrom_skipping hc hsep, wordsFrom_word_letter _ hc hsep,
      (h es hes).skipping (c :: read) x]

end ReadsBack

/-- **The reader takes up the new words in their places.** -/
theorem readsBack_rewriteFrom {t : Text} {es : Edits} (hline : '\n' ∉ t) (hes : es.AreWords) :
    ReadsBack es t := by
  induction t generalizing es with
  | nil => exact .nil es
  | cons c t ih =>
      rw [List.mem_cons, not_or] at hline
      by_cases hc : c = ';'
      · subst hc
        exact .semicolon hline.2
      · cases hsep : isSeparator c with
        | true => exact .separator hsep (ih hline.2 hes)
        | false => exact .letter hc hsep hes fun es hes => ih hline.2 hes

/-- **The words of a rewritten line.** -/
theorem words_rewriteWords {t : Text} {es : Edits} (hline : '\n' ∉ t) (hes : es.AreWords) :
    words (rewriteWords es t) = es.apply (words t) :=
  (readsBack_rewriteFrom hline hes).gap

/-! ### The ends of a line -/

namespace Text

/-- The text does not begin with a blank. -/
def StartsPlain (t : Text) : Prop := ∀ c ∈ t.head?, isBlank c = false

/-- The text does not end with a blank. -/
def EndsPlain (t : Text) : Prop := ∀ c ∈ t.getLast?, isBlank c = false

variable {t u : Text}

theorem dropWhile_of_startsPlain (h : StartsPlain t) : t.dropWhile isBlank = t := by
  cases t with
  | nil => rfl
  | cons c rest => exact List.dropWhile_cons_of_neg (by simp [h c rfl])

theorem startsPlain_dropWhile (t : Text) : StartsPlain (t.dropWhile isBlank) := by
  intro c hc
  have hfirst := List.head?_dropWhile_not isBlank t
  rwa [Option.mem_def.mp hc] at hfirst

theorem StartsPlain.append (h : StartsPlain t) (hne : t ≠ []) (u : Text) :
    StartsPlain (t ++ u) := by
  obtain ⟨c, rest, rfl⟩ := List.exists_cons_of_ne_nil hne
  exact h

/-- Trimming takes off blanks at the end of what is left behind those at the
beginning. -/
theorem dropWhile_eq_trim_append (t : Text) :
    t.dropWhile isBlank = trim t ++ ((t.dropWhile isBlank).reverse.takeWhile isBlank).reverse := by
  rw [trim, ← List.reverse_append, List.takeWhile_append_dropWhile, List.reverse_reverse]

/-- The blanks that trimming takes off, and what is left between them. -/
theorem eq_append_trim (t : Text) :
    t = t.takeWhile isBlank ++ trim t ++
      ((t.dropWhile isBlank).reverse.takeWhile isBlank).reverse := by
  rw [List.append_assoc, ← dropWhile_eq_trim_append, List.takeWhile_append_dropWhile]

theorem endsPlain_trim (t : Text) : EndsPlain (trim t) := by
  intro c hc
  rw [trim, List.getLast?_reverse] at hc
  exact startsPlain_dropWhile _ c hc

theorem startsPlain_trim (t : Text) : StartsPlain (trim t) := by
  intro c hc
  refine startsPlain_dropWhile t c ?_
  rw [dropWhile_eq_trim_append, List.head?_append, Option.mem_def.mp hc]
  rfl

/-- **Trimming takes off the blanks at both ends and no more.** -/
theorem trim_between {lead trail : Text} (hlead : ∀ c ∈ lead, isBlank c = true)
    (htrail : ∀ c ∈ trail, isBlank c = true) (hstart : StartsPlain t) (hend : EndsPlain t) :
    trim (lead ++ t ++ trail) = t := by
  rw [trim, List.append_assoc, List.dropWhile_append_of_pos hlead]
  by_cases hne : t = []
  · subst hne
    have hblank : trail.dropWhile isBlank = [] := List.dropWhile_eq_nil_iff.mpr htrail
    rw [List.nil_append, hblank]
    rfl
  · have hback : StartsPlain t.reverse := by
      intro c hc
      rw [List.head?_reverse] at hc
      exact hend c hc
    rw [dropWhile_of_startsPlain (hstart.append hne trail), List.reverse_append,
      List.dropWhile_append_of_pos (fun c hc => htrail c (List.mem_reverse.mp hc)),
      dropWhile_of_startsPlain hback, List.reverse_reverse]

/-- Rework a text between the blanks at its ends. -/
def between (f : Text → Text) (t : Text) : Text :=
  t.takeWhile isBlank ++ f (trim t) ++ ((t.dropWhile isBlank).reverse.takeWhile isBlank).reverse

/-- What is put between the blanks of a line is what trimming leaves of it. -/
theorem trim_between_of_plain {f : Text → Text} (hstart : StartsPlain (f (trim t)))
    (hend : EndsPlain (f (trim t))) : trim (between f t) = f (trim t) := by
  refine trim_between (fun c hc => List.mem_takeWhile_imp hc) ?_ hstart hend
  intro c hc
  exact List.mem_takeWhile_imp (List.mem_reverse.mp hc)

/-- The end of a text is the end of what follows its first character. -/
theorem endsPlain_cons_iff {c : Char} :
    EndsPlain (c :: t) ↔ (t = [] → isBlank c = false) ∧ EndsPlain t := by
  cases t with
  | nil => simp [EndsPlain]
  | cons d rest => simp [EndsPlain]

theorem endsPlain_append_iff (hne : u ≠ []) : EndsPlain (t ++ u) ↔ EndsPlain u := by
  rw [EndsPlain, EndsPlain, List.getLast?_append_of_ne_nil t hne]

end Text

theorem IsWord.startsPlain {x : Text} (h : IsWord x) : x.StartsPlain := fun c hc =>
  (h.2 c (List.mem_of_mem_head? hc)).2.2

theorem IsWord.endsPlain {x : Text} (h : IsWord x) : x.EndsPlain := fun c hc =>
  (h.2 c (List.mem_of_mem_getLast? hc)).2.2

section Ends

variable {c : Char} {t : Text} {es : Edits}

/-- In a gap the writer copies the next character or puts a new word there. -/
theorem rewriteFrom_gap_cons (hes : es.AreWords) (c : Char) (t : Text) :
    (∃ u, rewriteFrom .gap es (c :: t) = c :: u) ∨
      ∃ x u, IsWord x ∧ rewriteFrom .gap es (c :: t) = x ++ u := by
  by_cases hc : c = ';'
  · subst hc
    exact Or.inl ⟨t, rewriteFrom_semicolon .gap⟩
  · cases hsep : isSeparator c with
    | true => exact Or.inl ⟨_, rewriteFrom_separator .gap hsep⟩
    | false =>
        cases es with
        | nil => exact Or.inl ⟨_, rewriteFrom_gap_nil hc hsep⟩
        | cons e es =>
            cases e with
            | none => exact Or.inl ⟨_, rewriteFrom_gap_none hc hsep⟩
            | some x =>
                have hx : IsWord x := hes (some x) List.mem_cons_self x rfl
                exact Or.inr ⟨x, _, hx, rewriteFrom_gap_some hc hsep x⟩

/-- Rewriting empties no line. -/
theorem rewriteWords_eq_nil_iff (hes : es.AreWords) : rewriteWords es t = [] ↔ t = [] := by
  cases t with
  | nil => exact ⟨fun _ => rfl, fun _ => rfl⟩
  | cons c t =>
      rcases rewriteFrom_gap_cons hes c t with ⟨u, hu⟩ | ⟨x, u, hx, hu⟩
      · simp [rewriteWords, hu]
      · simp [rewriteWords, hu, hx.1]

theorem rewriteFrom_copying_eq_nil (h : rewriteFrom .copying es t = []) : t = [] := by
  cases t with
  | nil => rfl
  | cons c t =>
      by_cases hc : c = ';'
      · simp [hc, rewriteFrom_semicolon] at h
      · cases hsep : isSeparator c with
        | true => simp [rewriteFrom_separator _ hsep] at h
        | false => simp [rewriteFrom_copying hc hsep] at h

/-- A line that begins plainly does so after the rewriting. -/
theorem startsPlain_rewriteWords (hes : es.AreWords) (h : t.StartsPlain) :
    (rewriteWords es t).StartsPlain := by
  cases t with
  | nil => exact h
  | cons c t =>
      unfold rewriteWords
      rcases rewriteFrom_gap_cons hes c t with ⟨u, hu⟩ | ⟨x, u, hx, hu⟩
      · rw [hu]
        exact h
      · rw [hu]
        exact hx.startsPlain.append hx.1 u

/-- The writer ends plainly where the line does, in the three places where it may
stand; behind a new word, the new word is the end if nothing follows. -/
structure EndsLike (es : Edits) (t : Text) : Prop where
  gap : (rewriteFrom .gap es t).EndsPlain
  copying : (rewriteFrom .copying es t).EndsPlain
  skipping : ∀ x : Text, x.EndsPlain → (x ++ rewriteFrom .skipping es t).EndsPlain

namespace EndsLike

theorem nil (es : Edits) : EndsLike es [] where
  gap := nofun
  copying := nofun
  skipping x hx := by rwa [rewriteFrom, List.append_nil]

/-- A comment ends as it did. -/
theorem semicolon (h : Text.EndsPlain (';' :: t)) : EndsLike es (';' :: t) where
  gap := by rwa [rewriteFrom_semicolon]
  copying := by rwa [rewriteFrom_semicolon]
  skipping x _ := by
    rw [rewriteFrom_semicolon]
    exact (Text.endsPlain_append_iff (List.cons_ne_nil _ _)).mpr h

/-- A separator at the end ends as it did. -/
theorem separator (hes : es.AreWords) (hsep : isSeparator c = true)
    (hlast : t = [] → Text.isBlank c = false) (h : EndsLike es t) : EndsLike es (c :: t) := by
  have hgap : Text.EndsPlain (c :: rewriteFrom .gap es t) := by
    refine Text.endsPlain_cons_iff.mpr ⟨fun hnil => ?_, h.gap⟩
    exact hlast ((rewriteWords_eq_nil_iff hes).mp hnil)
  refine ⟨?_, ?_, ?_⟩
  · rwa [rewriteFrom_separator _ hsep]
  · rwa [rewriteFrom_separator _ hsep]
  · intro x _
    rw [rewriteFrom_separator _ hsep]
    exact (Text.endsPlain_append_iff (List.cons_ne_nil _ _)).mpr hgap

/-- A letter ends as the word does that stands in its place. -/
theorem letter (hes : es.AreWords) (hc : c ≠ ';') (hsep : isSeparator c = false)
    (hlast : t = [] → Text.isBlank c = false) (h : ∀ es : Edits, es.AreWords → EndsLike es t) :
    EndsLike es (c :: t) := by
  have hcopy : ∀ es : Edits, es.AreWords →
      Text.EndsPlain (c :: rewriteFrom .copying es t) := by
    intro es hes
    refine Text.endsPlain_cons_iff.mpr ⟨fun hnil => ?_, (h es hes).copying⟩
    exact hlast (rewriteFrom_copying_eq_nil hnil)
  refine ⟨?_, ?_, ?_⟩
  · cases es with
    | nil =>
        rw [rewriteFrom_gap_nil hc hsep]
        exact hcopy [] hes
    | cons e es =>
        obtain ⟨he, hmore⟩ := List.forall_mem_cons.mp hes
        cases e with
        | none =>
            rw [rewriteFrom_gap_none hc hsep]
            exact hcopy es hmore
        | some x =>
            rw [rewriteFrom_gap_some hc hsep]
            exact (h es hmore).skipping x (he x rfl).endsPlain
  · rw [rewriteFrom_copying hc hsep]
    exact hcopy es hes
  · intro x hx
    rw [rewriteFrom_skipping hc hsep]
    exact (h es hes).skipping x hx

end EndsLike

/-- **A line that ends plainly does so after the rewriting.** -/
theorem endsLike_rewriteFrom (hes : es.AreWords) (h : t.EndsPlain) : EndsLike es t := by
  induction t generalizing es with
  | nil => exact .nil es
  | cons c t ih =>
      obtain ⟨hlast, hrest⟩ := Text.endsPlain_cons_iff.mp h
      by_cases hc : c = ';'
      · subst hc
        exact .semicolon h
      · cases hsep : isSeparator c with
        | true => exact .separator hes hsep hlast (ih hes hrest)
        | false => exact .letter hes hc hsep hlast fun es hes => ih hes hrest

/-- The writer breaks no line. -/
theorem newline_not_mem_rewriteFrom (hes : es.AreWords) (hline : '\n' ∉ t) (pen : Pen) :
    '\n' ∉ rewriteFrom pen es t := by
  induction t generalizing es pen with
  | nil => exact hline
  | cons c t ih =>
      obtain ⟨hfirst, hrest⟩ := not_or.mp (mt List.mem_cons.mpr hline)
      have hcopy : ∀ pen' (es' : Edits), es'.AreWords → '\n' ∉ c :: rewriteFrom pen' es' t := by
        intro pen' es' hes' hmem
        rcases List.mem_cons.mp hmem with heq | hmem
        · exact hfirst heq
        · exact ih hes' hrest pen' hmem
      by_cases hc : c = ';'
      · subst hc
        rwa [rewriteFrom_semicolon]
      · cases hsep : isSeparator c with
        | true =>
            rw [rewriteFrom_separator _ hsep]
            exact hcopy .gap es hes
        | false =>
            cases pen with
            | copying =>
                rw [rewriteFrom_copying hc hsep]
                exact hcopy .copying es hes
            | skipping =>
                rw [rewriteFrom_skipping hc hsep]
                exact ih hes hrest .skipping
            | gap =>
                cases es with
                | nil =>
                    rw [rewriteFrom_gap_nil hc hsep]
                    exact hcopy .copying [] hes
                | cons e es =>
                    obtain ⟨he, hmore⟩ := List.forall_mem_cons.mp hes
                    cases e with
                    | none =>
                        rw [rewriteFrom_gap_none hc hsep]
                        exact hcopy .copying es hmore
                    | some x =>
                        rw [rewriteFrom_gap_some hc hsep, List.mem_append, not_or]
                        exact ⟨(he x rfl).newline_not_mem, ih hmore hrest .skipping⟩

end Ends

/-! ### Sources with reworked lines -/

/-- A text that can be the text of a line: trimmed, and without line feeds. -/
structure Text.IsLine (t : Text) : Prop where
  newline_not_mem : '\n' ∉ t
  startsPlain : t.StartsPlain
  endsPlain : t.EndsPlain

theorem isLine_trim {text : Text} (h : '\n' ∉ text) : (Text.trim text).IsLine where
  newline_not_mem hmem := by
    rw [Text.eq_append_trim text] at h
    simp only [List.mem_append, not_or] at h
    exact h.1.2 hmem
  startsPlain := Text.startsPlain_trim text
  endsPlain := Text.endsPlain_trim text

theorem isLine_of_mem_splitLines {source : Text} {line : Line} (h : line ∈ splitLines source) :
    line.text.IsLine := by
  obtain ⟨⟨text, n⟩, hentry, rfl⟩ := List.mem_map.mp h
  exact isLine_trim (newline_not_mem_of_mem_splitOn (List.fst_mem_of_mem_zipIdx hentry))

theorem isLine_rewriteWords {t : Text} {es : Edits} (hes : es.AreWords) (h : t.IsLine) :
    (rewriteWords es t).IsLine where
  newline_not_mem := newline_not_mem_rewriteFrom hes h.newline_not_mem .gap
  startsPlain := startsPlain_rewriteWords hes h.startsPlain
  endsPlain := (endsLike_rewriteFrom hes h.endsPlain).gap

/-- The source with every line reworked between the blanks at its ends. -/
def mapLines (f : Text → Text) (source : Text) : Text :=
  joinLines ((source.splitOn '\n').map (Text.between f))

/-- **The lines of a reworked source** have the numbers of the old ones. -/
theorem splitLines_mapLines {f : Text → Text} (hf : ∀ t : Text, t.IsLine → (f t).IsLine)
    (source : Text) :
    splitLines (mapLines f source) =
      (splitLines source).map fun line => ⟨line.number, f line.text⟩ := by
  have hlines : ∀ text ∈ source.splitOn '\n', (f (Text.trim text)).IsLine := fun text htext =>
    hf _ (isLine_trim (newline_not_mem_of_mem_splitOn htext))
  have hne : (source.splitOn '\n').map (Text.between f) ≠ [] := by simp
  rw [mapLines, splitLines_joinLines hne, splitLines, List.zipIdx_map, List.map_map, List.map_map]
  · refine List.map_congr_left ?_
    rintro ⟨text, n⟩ hentry
    have hline := hlines text (List.fst_mem_of_mem_zipIdx hentry)
    simp only [Function.comp_apply, Prod.map_apply, id_eq]
    rw [Text.trim_between_of_plain hline.startsPlain hline.endsPlain]
  · intro text htext
    obtain ⟨text, hmem, rfl⟩ := List.mem_map.mp htext
    have hrow := newline_not_mem_of_mem_splitOn hmem
    rw [Text.eq_append_trim text] at hrow
    simp only [List.mem_append, not_or] at hrow
    simp only [Text.between, List.mem_append, not_or]
    exact ⟨⟨hrow.1.1, (hlines text hmem).newline_not_mem⟩, hrow.2⟩

/-- Joined lines are blank if each of them is. -/
theorem isAllBlank_joinLines (lines : List Text) :
    Text.isAllBlank (joinLines lines) = lines.all Text.isAllBlank := by
  induction lines with
  | nil => rfl
  | cons text rest ih =>
      cases rest with
      | nil => simp [joinLines]
      | cons next rest =>
          have hbreak : Text.isAllBlank ['\n'] = true := by decide
          unfold joinLines at ih ⊢
          rw [List.intercalate_cons_cons, List.all_cons, ← ih]
          simp only [Text.isAllBlank, List.all_append] at hbreak ⊢
          rw [hbreak, Bool.and_true]

/-- Blanks at the ends of a text do not count. -/
theorem Text.isAllBlank_between (f : Text → Text) (t : Text) :
    isAllBlank (between f t) = isAllBlank (f (trim t)) := by
  have hlead : (t.takeWhile isBlank).all isBlank = true :=
    List.all_eq_true.mpr fun c hc => List.mem_takeWhile_imp hc
  have htrail : ((t.dropWhile isBlank).reverse.takeWhile isBlank).reverse.all isBlank = true :=
    List.all_eq_true.mpr fun c hc => List.mem_takeWhile_imp (List.mem_reverse.mp hc)
  simp only [isAllBlank, between, List.all_append, hlead, htrail, Bool.true_and, Bool.and_true]

/-- Rewriting a source neither empties it nor fills it. -/
theorem isAllBlank_mapLines {f : Text → Text} (hf : ∀ t : Text, t.IsLine → (f t).IsLine)
    (hnil : ∀ t : Text, t.IsLine → (f t = [] ↔ t = [])) (source : Text) :
    Text.isAllBlank (mapLines f source) = Text.isAllBlank source := by
  have hsource : source = joinLines (source.splitOn '\n') := (List.intercalate_splitOn '\n').symm
  have hplain : ∀ t : Text, t.IsLine → Text.isAllBlank t = t.isEmpty := by
    intro t ht
    cases t with
    | nil => rfl
    | cons c rest => simp [Text.isAllBlank, ht.startsPlain c rfl]
  conv_rhs => rw [hsource]
  rw [mapLines, isAllBlank_joinLines, isAllBlank_joinLines, List.all_map]
  rw [Bool.eq_iff_iff, List.all_eq_true, List.all_eq_true]
  refine forall₂_congr fun text htext => ?_
  have hline := isLine_trim (newline_not_mem_of_mem_splitOn htext)
  have hold : Text.isAllBlank text = Text.isAllBlank (Text.trim text) := by
    conv_lhs => rw [Text.eq_append_trim text]
    exact Text.isAllBlank_between id text
  rw [Function.comp_apply, Text.isAllBlank_between, hold, hplain _ hline, hplain _ (hf _ hline),
    List.isEmpty_iff, List.isEmpty_iff]
  exact hnil _ hline

end SegmentAssembler
