import Mathlib.Data.List.Forall2
import SegmentAssembler.Proofs.CleanVerdicts
import SegmentAssembler.Proofs.Declarations
import SegmentAssembler.Proofs.EncodingFaults
import SegmentAssembler.Proofs.NameLetters
import SegmentAssembler.Proofs.NameResolution
import SegmentAssembler.Proofs.StatementForms

/-!
# The tables of a layout agree with each other

Items, addresses, names, the start of the segment and its entry are separate
tables, filled by different lines.  They are all read off the same records, so
they tell the same story:

* `Admits.rank_phase_le`, `phase_le_of_lt` — the segment goes through its phases in
  one direction, so that it is opened once and closed once;
* `phase_opened_iff` — the segment is open between the two lines and nowhere else,
  so that what stands inside it stands between them;
* `labelledOn_iff` — a label there is accepted unless its name is reported;
* `firstAddress_of_lowest` — the first line of a kind has the lowest number;
* `enters_of_declaration` — the entry of a declaring line can be read off its
  item or its label;
* `tables_consistent` — the whole picture, for every source.
-/

namespace SegmentAssembler

/-! ### The phases of the segment -/

/-- How far the segment has come, as a number. -/
def Phase.rank : Phase → Nat
  | pending => 0
  | opened => 1
  | closed => 2

namespace State

variable {s : State} {line : CodeLine} {e : Effect}

/-- **The segment goes through its phases in one direction.** -/
theorem Admits.rank_phase_le (h : s.Admits line e) :
    s.phase.rank ≤ (s.apply e).phase.rank := by
  cases h with
  | opened hphase hname =>
      rw [hphase]
      exact Nat.zero_le _
  | closed hphase =>
      rw [hphase]
      exact Nat.le_succ _
  | _ => exact Nat.le_refl _

/-- Only an opening line ends the time before the segment. -/
theorem Admits.exists_opened (h : s.Admits line e) (hs : s.phase = .pending)
    (hnext : (s.apply e).phase ≠ .pending) : ∃ name, e = .opened name := by
  cases e with
  | opened name => exact ⟨name, rfl⟩
  | closed =>
      cases h with
      | closed hphase =>
          rw [hs] at hphase
          cases hphase
  | _ => exact absurd hs hnext

/-- Only a closing line ends the segment. -/
theorem Admits.eq_closed (h : s.Admits line e) (hs : s.phase ≠ .closed)
    (hnext : (s.apply e).phase = .closed) : e = .closed := by
  cases e with
  | closed => rfl
  | opened name => cases hnext
  | _ => exact absurd hnext hs

/-- Items and declarations stand inside the segment. -/
theorem Admits.phase_opened (h : s.Admits line e)
    (he : e.item?.isSome = true ∨ e.declared?.isSome = true) : s.phase = .opened := by
  cases h with
  | labelled hphase hwords hname hfree => exact hphase
  | defined hphase hwords hname hfree htop => exact hphase
  | collected hphase hwords hop1 hop2 hrow htop => exact hphase
  | _ => simp [Effect.item?, Effect.declared?] at he

/-- What is declared is a name. -/
theorem Admits.isName_of_declared? {id : Text} {kind : Symbol.Kind} (h : s.Admits line e)
    (hdeclared : e.declared? = some (id, kind)) : isName id = true := by
  cases h with
  | labelled hphase hwords hname hfree =>
      cases hdeclared
      exact hname
  | defined hphase hwords hname hfree htop =>
      cases hdeclared
      exact hname
  | _ => cases hdeclared

/-- A run goes through the phases in one direction. -/
theorem rank_phase_of_mem_run {lines : List CodeLine} {r : Record} (hr : r ∈ s.run lines) :
    s.phase.rank ≤ r.before.phase.rank := by
  induction lines generalizing s with
  | nil => exact nomatch hr
  | cons line rest ih =>
      rw [run_cons] at hr
      rcases List.mem_cons.mp hr with rfl | hr
      · exact Nat.le_refl _
      · exact Nat.le_trans (judge_admits s line).rank_phase_le (ih hr)

/-- A line further down finds the segment no less far than a line above left it. -/
theorem pairwise_rank_phase_run (s : State) (lines : List CodeLine) :
    (s.run lines).Pairwise fun r r' => r.next.phase.rank ≤ r'.before.phase.rank := by
  induction lines generalizing s with
  | nil => exact List.Pairwise.nil
  | cons line rest ih =>
      rw [run_cons]
      exact List.pairwise_cons.mpr ⟨fun r hr => rank_phase_of_mem_run hr, ih _⟩

/-- What holds at the start of a run and no longer at its end is given up on one of
its lines. -/
theorem exists_turn_of_finish {P : State → Prop} {lines : List CodeLine} (hs : P s)
    (hfinish : ¬P (s.finish (s.run lines))) : ∃ r ∈ s.run lines, P r.before ∧ ¬P r.next := by
  induction lines generalizing s with
  | nil => exact absurd hs hfinish
  | cons line rest ih =>
      rw [run_cons, finish_cons] at hfinish
      rw [run_cons]
      by_cases hnext : P (s.scan line).next
      · obtain ⟨r, hr, hturn⟩ := ih hnext hfinish
        exact ⟨r, List.mem_cons_of_mem _ hr, hturn⟩
      · exact ⟨_, List.mem_cons_self, hs, hnext⟩

/-- **A label in the open segment is accepted exactly if nothing is said against its
name**: neither that it is none nor that it is taken. -/
theorem judge_labelled_iff {id : Text} (hphase : s.phase = .opened)
    (hhead : line.head = id ++ [':']) :
    (s.judge line).effect = .labelled id ↔
      ∀ name, (Diagnostic.invalidLabelId name).asError ∉ (s.judge line).findings ∧
        (Diagnostic.duplicateId name).asError ∉ (s.judge line).findings := by
  have hjudge : s.judge line = s.judgeLabel id line.rest := by
    rw [judge_of_ne_pending (by rw [hphase]; decide), hhead, Statement.ofWords_label]
    exact inside_of_opened hphase _
  rw [hjudge, judgeLabel]
  by_cases hname : isName id = true
  · by_cases htaken : s.names.contains id = true
    · simp [hname, htaken, Verdict.reject, Diagnostic.asError]
    · -- a word too many is all that may be reported of such a label
      cases line.rest <;>
        simp [hname, htaken, Verdict.after, Verdict.accept, surplus, Diagnostic.asError]
  · simp [hname, Verdict.reject, Diagnostic.asError]

end State

namespace Layout

/-- The segment is opened on this line. -/
def OpensOn (l : Layout) (n : Nat) : Prop :=
  ∃ r ∈ l.records, r.line.number = n ∧ ∃ name, r.verdict.effect = .opened name

/-- The segment is closed on this line. -/
def ClosesOn (l : Layout) (n : Nat) : Prop :=
  ∃ r ∈ l.records, r.line.number = n ∧ r.verdict.effect = .closed

variable {source : Text}

/-- A record further down finds the segment no less far. -/
theorem phase_le_of_lt {r r' : Record} (hr : r ∈ (ofSource source).records)
    (hr' : r' ∈ (ofSource source).records) (hlt : r.line.number < r'.line.number) :
    r.next.phase.rank ≤ r'.before.phase.rank := by
  have hphase := State.pairwise_rank_phase_run {} (programLines (splitLines source))
  have hboth := (pairwise_line_records source).and hphase
  obtain ⟨pre, post, hsplit⟩ := List.append_of_mem hr
  rw [hsplit] at hboth hr'
  obtain ⟨-, hafter, hbefore⟩ := List.pairwise_append.mp hboth
  rcases List.mem_append.mp hr' with hpre | hpost
  · have hgt := (hbefore r' hpre r List.mem_cons_self).1
    omega
  · rcases List.mem_cons.mp hpost with rfl | hpost
    · omega
    · exact ((List.pairwise_cons.mp hafter).1 r' hpost).2

/-- The segment is opened once. -/
theorem opensOn_unique {n m : Nat} (hn : (ofSource source).OpensOn n)
    (hm : (ofSource source).OpensOn m) : n = m := by
  -- after an opening line the segment is no longer to come
  have hnot : ∀ {r r' : Record}, r ∈ (ofSource source).records → r' ∈ (ofSource source).records →
      (∃ name, r.verdict.effect = .opened name) → (∃ name, r'.verdict.effect = .opened name) →
      ¬ r.line.number < r'.line.number := by
    rintro r r' hr hr' ⟨name, hopened⟩ ⟨name', hopened'⟩ hlt
    have hrank := phase_le_of_lt hr hr' hlt
    have hadmits := admits_of_mem_records hr'
    rw [hopened'] at hadmits
    rw [Record.next, hopened] at hrank
    cases hadmits with
    | opened hphase hname =>
        rw [hphase] at hrank
        exact absurd hrank (Nat.not_succ_le_zero _)
  obtain ⟨r, hr, rfl, hopened⟩ := hn
  obtain ⟨r', hr', rfl, hopened'⟩ := hm
  have hle := hnot hr hr' hopened hopened'
  have hge := hnot hr' hr hopened' hopened
  omega

/-- No line below a closing line finds the segment open. -/
theorem le_of_closed {r c : Record} (hr : r ∈ (ofSource source).records)
    (hphase : r.before.phase = .opened) (hc : c ∈ (ofSource source).records)
    (hclosed : c.verdict.effect = .closed) : r.line.number ≤ c.line.number := by
  by_contra hlt
  have hrank := phase_le_of_lt hc hr (Nat.lt_of_not_le hlt)
  rw [Record.next, hclosed, hphase] at hrank
  exact absurd hrank (by simp [State.apply, Phase.rank])

/-- The segment is closed once. -/
theorem closesOn_unique {n m : Nat} (hn : (ofSource source).ClosesOn n)
    (hm : (ofSource source).ClosesOn m) : n = m := by
  have hopened : ∀ {r : Record}, r ∈ (ofSource source).records →
      r.verdict.effect = .closed → r.before.phase = .opened := by
    intro r hr hclosed
    have hadmits := admits_of_mem_records hr
    rw [hclosed] at hadmits
    cases hadmits with
    | closed hphase => exact hphase
  obtain ⟨r, hr, rfl, hclosed⟩ := hn
  obtain ⟨r', hr', rfl, hclosed'⟩ := hm
  have hle := le_of_closed hr (hopened hr hclosed) hr' hclosed'
  have hge := le_of_closed hr' (hopened hr' hclosed') hr hclosed
  omega

/-- What held at the beginning and no longer holds on a line was given up further
up. -/
theorem exists_turn_of_mem_records {P : State → Prop} {r : Record}
    (hr : r ∈ (ofSource source).records) (hs : P {}) (hnot : ¬P r.before) :
    ∃ turn ∈ (ofSource source).records, turn.line.number < r.line.number ∧
      P turn.before ∧ ¬P turn.next := by
  obtain ⟨pre, post, hsplit⟩ := List.append_of_mem hr
  have hrun := (records_ofSource source).symm.trans hsplit
  obtain ⟨before, after, -, hpre, -⟩ := State.run_split hrun
  have hreached := State.before_of_run_split hrun
  rw [hreached, ← hpre] at hnot
  obtain ⟨turn, hturn, hholds, hfails⟩ := State.exists_turn_of_finish hs hnot
  rw [hpre] at hturn
  have hsorted := pairwise_line_records source
  rw [hsplit] at hsorted
  exact ⟨turn, hsplit ▸ List.mem_append_left _ hturn,
    (List.pairwise_append.mp hsorted).2.2 turn hturn r List.mem_cons_self, hholds, hfails⟩

/-- The line stands below the one that opens the segment and not below the one that
closes it. -/
def InsideOn (l : Layout) (n : Nat) : Prop :=
  (∃ o, l.OpensOn o ∧ o < n) ∧ ∀ c, l.ClosesOn c → n ≤ c

/-- **The segment is open between the lines that open and close it**, and nowhere
else. -/
theorem phase_opened_iff {r : Record} (hr : r ∈ (ofSource source).records) :
    r.before.phase = .opened ↔ (ofSource source).InsideOn r.line.number := by
  constructor
  · intro hphase
    constructor
    · have hnot : r.before.phase ≠ .pending := by
        rw [hphase]
        decide
      obtain ⟨o, ho, hlt, hbefore, hnext⟩ :=
        exists_turn_of_mem_records (P := fun s => s.phase = .pending) hr rfl hnot
      exact ⟨_, ⟨o, ho, rfl, (admits_of_mem_records ho).exists_opened hbefore hnext⟩, hlt⟩
    · rintro c ⟨closing, hclosing, rfl, hclosed⟩
      exact le_of_closed hr hphase hclosing hclosed
  · rintro ⟨⟨-, ⟨o, ho, rfl, name, hopened⟩, hlt⟩, hcloses⟩
    cases hphase : r.before.phase with
    | opened => rfl
    | pending =>
        have hrank := phase_le_of_lt ho hr hlt
        rw [Record.next, hopened, hphase] at hrank
        exact absurd hrank (Nat.not_succ_le_zero _)
    | closed =>
        obtain ⟨c, hc, hbelow, hbefore, hnext⟩ :=
          exists_turn_of_mem_records (P := fun s => s.phase ≠ .closed) hr (by decide)
            (not_not.mpr hphase)
        have hclosed := (admits_of_mem_records hc).eq_closed hbefore (not_not.mp hnext)
        have hle := hcloses _ ⟨c, hc, rfl, hclosed⟩
        omega

/-- What is inside stands between the lines that open and close the segment. -/
theorem between_of_mem_records {r : Record} (hr : r ∈ (ofSource source).records)
    (he : r.verdict.effect.item?.isSome = true ∨ r.verdict.effect.declared?.isSome = true) :
    (∃ o, (ofSource source).OpensOn o ∧ o < r.line.number) ∧
      ∀ c, (ofSource source).ClosesOn c → r.line.number < c := by
  have hphase := (admits_of_mem_records hr).phase_opened he
  obtain ⟨hopens, hcloses⟩ := (phase_opened_iff hr).mp hphase
  refine ⟨hopens, ?_⟩
  rintro c ⟨closing, hclosing, rfl, hclosed⟩
  have hle := hcloses _ ⟨closing, hclosing, rfl, hclosed⟩
  have hne : r.line.number ≠ closing.line.number := by
    intro hnumber
    rw [eq_of_number_eq hr hclosing hnumber, hclosed] at he
    simp [Effect.item?, Effect.declared?] at he
  omega

/-! ### First addresses -/

/-- Without a line of the kind the address is zero. -/
theorem firstAddress_of_none {l : Layout} {p : Effect → Bool}
    (h : ∀ r ∈ l.records, p r.verdict.effect = false) : l.firstAddress p = 0 := by
  have hfind : (l.records.find? fun r => p r.verdict.effect) = none := by
    rw [List.find?_eq_none]
    intro r hr
    simp [h r hr]
  rw [firstAddress, hfind]

/-- **The first line of a kind has the lowest number.** -/
theorem firstAddress_of_lowest {p : Effect → Bool} {r : Record}
    (hr : r ∈ (ofSource source).records) (hp : p r.verdict.effect = true)
    (hlow : ∀ r' ∈ (ofSource source).records, p r'.verdict.effect = true →
      r.line.number ≤ r'.line.number) :
    (ofSource source).firstAddress p = r.before.counter := by
  cases hfind : (ofSource source).records.find? fun r => p r.verdict.effect with
  | none => exact absurd hp (List.find?_eq_none.mp hfind r hr)
  | some first =>
      obtain ⟨hfirst, pre, post, hsplit, hpre⟩ := List.find?_eq_some_iff_append.mp hfind
      have hmem : first ∈ (ofSource source).records := List.mem_of_find?_eq_some hfind
      have hle := hlow first hmem hfirst
      have hge : first.line.number ≤ r.line.number := by
        have hsorted := pairwise_line_records source
        rw [hsplit] at hsorted hr
        rcases List.mem_append.mp hr with hr | hr
        · have hnot := hpre r hr
          simp [hp] at hnot
        · rcases List.mem_cons.mp hr with rfl | hr
          · exact Nat.le_refl _
          · have hpost := (List.pairwise_append.mp hsorted).2.1
            exact Nat.le_of_lt ((List.pairwise_cons.mp hpost).1 r hr)
      obtain rfl := eq_of_number_eq hr hmem (Nat.le_antisymm hle hge)
      rw [firstAddress, hfind]

/-- The address of the first item of a kind is the address of its line. -/
theorem firstAddress_items {p : Effect → Bool} {q : Item → Prop}
    (hpq : ∀ e, p e = true ↔ ∃ item, e.item? = some item ∧ q item) :
    ((∀ entry ∈ (ofSource source).items, ¬ q entry.2) → (ofSource source).firstAddress p = 0) ∧
    ∀ n item, (n, item) ∈ (ofSource source).items → q item →
      (∀ m item', (m, item') ∈ (ofSource source).items → q item' → n ≤ m) →
      (ofSource source).addressAt? n = some ((ofSource source).firstAddress p) := by
  constructor
  · intro hnone
    refine firstAddress_of_none fun r hr => ?_
    rw [← Bool.not_eq_true, hpq]
    rintro ⟨item, hitem, hq⟩
    exact hnone (r.line.number, item) (mem_items_iff.mpr ⟨r, hr, rfl, hitem⟩) hq
  · intro n item hmem hq hlow
    obtain ⟨r, hr, rfl, hitem⟩ := mem_items_iff.mp hmem
    rw [firstAddress_of_lowest hr ((hpq _).mpr ⟨item, hitem, hq⟩), addressAt?_of_item hr hitem]
    intro r' hr' hp
    obtain ⟨item', hitem', hq'⟩ := (hpq _).mp hp
    exact hlow _ item' (mem_items_iff.mpr ⟨r', hr', rfl, hitem'⟩) hq'

private theorem isSome_item?_iff (e : Effect) :
    e.item?.isSome = true ↔ ∃ item, e.item? = some item ∧ True := by
  simp [Option.isSome_iff_exists]

private theorem isCollected_iff_item? (e : Effect) :
    e.isCollected = true ↔ ∃ item, e.item? = some item ∧ ∃ i, item = .instruction i := by
  simp [Effect.isCollected_iff]

/-! ### Declaring lines -/

/-- The lines that declare a name, in the order of the program. -/
def declaringLines (l : Layout) : List CodeLine :=
  l.records.filterMap fun r => r.declaration?.map fun _ => r.line

/-- The entry that a line calls for in the table of names, from what else is
known of the line: its item or its label, its address and its first word. -/
inductive Enters (l : Layout) (line : CodeLine) : Text × Symbol → Prop
  | data {d : Definition} {a : Nat} (hitem : (line.number, .data d) ∈ l.items)
      (hid : d.id = Text.upper line.head) (haddress : l.addressAt? line.number = some a) :
      Enters l line (Text.upper line.head, ⟨.ofDataType d.type, a⟩)
  | label {id : Text} {a : Nat} (hlabel : l.LabelledOn line.number (Text.upper id))
      (hhead : line.head = id ++ [':']) (haddress : l.addressAt? line.number = some a) :
      Enters l line (Text.upper id, ⟨.label, a⟩)

/-- **The entry of a declaring line** can be read off its item or its label. -/
theorem enters_of_declaration {r : Record} {entry : Text × Symbol}
    (hr : r ∈ (ofSource source).records) (h : r.declaration? = some entry) :
    (ofSource source).Enters r.line entry := by
  obtain ⟨declared, hdeclared, rfl⟩ := Option.map_eq_some_iff.mp h
  have hsays := Statement.says_ofWords (CodeLine.isEnd_eq_false_iff.mp
    (isEnd_eq_false_of_mem_programLines (line_mem_programLines hr))) r.line.rest
  have hadmits := admits_of_mem_records hr
  cases heffect : r.verdict.effect with
  | labelled id =>
      rw [heffect] at hadmits hdeclared
      cases hdeclared
      cases hadmits with
      | labelled hphase hwords hname hfree =>
          rw [hwords] at hsays
          cases hsays with
          | label hhead =>
              exact .label ⟨r, hr, rfl, id, heffect, rfl⟩ hhead
                (addressAt?_of_mem_records hr (by rw [heffect]; rfl))
  | defined id type values =>
      rw [heffect] at hadmits hdeclared
      cases hdeclared
      cases hadmits with
      | defined hphase hwords hname hfree htop =>
          rw [hwords] at hsays
          cases hsays with
          | define hkeyword hrest hdirective =>
              exact .data (d := .ofLine r.line.head type _)
                (mem_items_iff.mpr ⟨r, hr, rfl, by rw [heffect]; rfl⟩) rfl
                (addressAt?_of_mem_records hr (by rw [heffect]; rfl))
  | _ => simp [heffect, Effect.declared?] at hdeclared

/-- A complaint about the name that a line declares comes from the verdict on the
line. -/
theorem mem_errors_iff_of_name {r : Record} (hr : r ∈ (ofSource source).records) {d : Diagnostic}
    (hd : ∃ name, d = .invalidLabelId name ∨ d = .duplicateId name) :
    (r.line.number, d) ∈ (ofSource source).report.errors ↔ d.asError ∈ r.verdict.findings := by
  refine ⟨fun herror => ?_, mem_errors_of_record hr⟩
  rcases origin_of_mem_errors herror with
    ⟨r', hr', hnumber, hfound⟩ | hlength | ⟨-, -, m, i, -, -, hfault⟩
  · rwa [eq_of_number_eq hr hr' hnumber.symm]
  · obtain ⟨name, rfl | rfl⟩ := hd <;> cases hlength
  · obtain ⟨name, rfl | rfl⟩ := hd <;> cases hfault

/-- **A label inside the segment is accepted exactly if no error is reported of its
name**, neither that it is none nor that it is taken. -/
theorem labelledOn_iff {line : CodeLine} {id : Text}
    (hline : line ∈ programLines (splitLines source)) (hhead : line.head = id ++ [':'])
    (hinside : (ofSource source).InsideOn line.number) :
    (ofSource source).LabelledOn line.number (Text.upper id) ↔
      ∀ name, (line.number, .invalidLabelId name) ∉ (ofSource source).report.errors ∧
        (line.number, .duplicateId name) ∉ (ofSource source).report.errors := by
  rw [← State.map_line_run {} (programLines (splitLines source))] at hline
  obtain ⟨r, hr, rfl⟩ := List.mem_map.mp hline
  have hverdict : r.verdict = r.before.judge r.line := State.verdict_of_mem_run hr
  have hjudge := State.judge_labelled_iff ((phase_opened_iff hr).mpr hinside) hhead
  rw [← hverdict] at hjudge
  have hinvalid := fun name => mem_errors_iff_of_name hr ⟨name, .inl rfl⟩
  have htaken := fun name => mem_errors_iff_of_name hr ⟨name, .inr rfl⟩
  simp only [hinvalid, htaken, ← hjudge]
  constructor
  · rintro ⟨r', hr', hnumber, id', heffect, -⟩
    obtain rfl := eq_of_number_eq hr hr' hnumber.symm
    have hadmits := admits_of_mem_records hr
    rw [heffect] at hadmits
    cases hadmits with
    | labelled hphase hwords hname hfree =>
        rw [hhead, Statement.ofWords_label] at hwords
        cases hwords
        exact heffect
  · intro heffect
    exact ⟨r, hr, rfl, id, heffect, rfl⟩

/-- A line declares a name if there is data on it or an accepted label. -/
theorem mem_declaringLines_iff {line : CodeLine} :
    line ∈ (ofSource source).declaringLines ↔
      line ∈ programLines (splitLines source) ∧
        ((∃ d, (line.number, .data d) ∈ (ofSource source).items) ∨
          ∃ key, (ofSource source).LabelledOn line.number key) := by
  constructor
  · intro hline
    obtain ⟨r, hr, hmap⟩ := List.mem_filterMap.mp hline
    obtain ⟨entry, hentry, rfl⟩ := Option.map_eq_some_iff.mp hmap
    refine ⟨line_mem_programLines hr, ?_⟩
    cases enters_of_declaration hr hentry with
    | data hitem hid haddress => exact Or.inl ⟨_, hitem⟩
    | label hlabel hhead haddress => exact Or.inr ⟨_, hlabel⟩
  · rintro ⟨hline, hdeclares⟩
    -- the line has a record, and that is the record of the data or the label
    rw [← State.map_line_run {} (programLines (splitLines source))] at hline
    obtain ⟨r, hr, rfl⟩ := List.mem_map.mp hline
    have hdeclared : ∃ entry, r.declaration? = some entry := by
      rcases hdeclares with ⟨d, hd⟩ | ⟨key, r', hr', hnumber, id, heffect, -⟩
      · obtain ⟨r', hr', hnumber, hitem⟩ := mem_items_iff.mp hd
        obtain rfl := eq_of_number_eq hr' hr hnumber
        obtain ⟨id, type, values, heffect, -⟩ := Effect.eq_defined_of_item? hitem
        exact ⟨_, by rw [Record.declaration?, heffect]; rfl⟩
      · obtain rfl := eq_of_number_eq hr' hr hnumber
        exact ⟨_, by rw [Record.declaration?, heffect]; rfl⟩
    obtain ⟨entry, hentry⟩ := hdeclared
    exact List.mem_filterMap.mpr ⟨r, hr, by rw [hentry]; rfl⟩

/-- The declaring lines stand in the order of the program. -/
theorem pairwise_declaringLines (source : Text) :
    (ofSource source).declaringLines.Pairwise fun a b => a.number < b.number := by
  refine List.Pairwise.filterMap _ ?_ (pairwise_line_records source)
  intro r r' hlt line hline line' hline'
  obtain ⟨-, -, rfl⟩ := Option.map_eq_some_iff.mp hline
  obtain ⟨-, -, rfl⟩ := Option.map_eq_some_iff.mp hline'
  exact hlt

/-- Members of a list that have a value, beside the values. -/
private theorem forall₂_filterMap {α β γ : Type} {f : α → Option β} {g : α → γ}
    {R : γ → β → Prop} {xs : List α} (h : ∀ x ∈ xs, ∀ y, f x = some y → R (g x) y) :
    List.Forall₂ R (xs.filterMap fun x => (f x).map fun _ => g x) (xs.filterMap f) := by
  induction xs with
  | nil => exact .nil
  | cons x xs ih =>
      obtain ⟨hx, hxs⟩ := List.forall_mem_cons.mp h
      cases hf : f x with
      | none => simpa [List.filterMap_cons, hf] using ih hxs
      | some y => simpa [List.filterMap_cons, hf] using ⟨hx y hf, ih hxs⟩

/-- **The names are the declaring lines**, entry for entry. -/
theorem enters_names (source : Text) :
    List.Forall₂ (ofSource source).Enters (ofSource source).declaringLines
      (ofSource source).names.entries := by
  rw [entries_names]
  exact forall₂_filterMap fun r hr entry hentry => enters_of_declaration hr hentry

/-- A key is the capital form of a name. -/
theorem exists_name_of_mem_keys {key : Text} (h : key ∈ (ofSource source).names.keys) :
    ∃ id, isName id = true ∧ Text.upper id = key := by
  obtain ⟨entry, hentry, rfl⟩ := List.mem_map.mp h
  rw [entries_names] at hentry
  obtain ⟨r, hr, hdeclaration⟩ := List.mem_filterMap.mp hentry
  obtain ⟨declared, hdeclared, rfl⟩ := Option.map_eq_some_iff.mp hdeclaration
  exact ⟨declared.1, (admits_of_mem_records hr).isName_of_declared? hdeclared, rfl⟩

/-- Names are filed in capitals. -/
theorem isCapitalName_of_mem_keys {key : Text} (h : key ∈ (ofSource source).names.keys) :
    isCapitalName key = true := by
  obtain ⟨id, hid, rfl⟩ := exists_name_of_mem_keys h
  exact isCapitalName_upper hid

/-- **A granted declaration is never refused by the table.** -/
theorem insert_of_declared? {r : Record} {id : Text} {kind : Symbol.Kind}
    (hr : r ∈ (ofSource source).records) (h : r.verdict.effect.declared? = some (id, kind)) :
    r.before.names.insert id ⟨kind, r.before.counter⟩ = .ok r.next.names := by
  have hfree := (admits_of_mem_records hr).free_of_declared? h
  rw [Record.next, State.names_apply, State.namesAfter, h, SymbolTable.insert_of_not_contains hfree]
  simp [SymbolTable.declare, hfree]

/-! ### The whole picture -/

/-- The tables of a layout agree with each other. -/
structure Consistent (l : Layout) : Prop where
  /-- Items have the address of their line. -/
  address_of_item : ∀ n item, (n, item) ∈ l.items →
    ∃ a, l.addressAt? n = some a ∧ ∀ i, item = .instruction i → i.address = a
  declaring_ascending : l.declaringLines.Pairwise fun a b => a.number < b.number
  declaring_iff : ∀ line, line ∈ l.declaringLines ↔
    line ∈ programLines l.lines ∧
      ((∃ d, (line.number, .data d) ∈ l.items) ∨ ∃ key, l.LabelledOn line.number key)
  /-- A label inside the segment is accepted unless its name is reported to be none or
  to be taken. -/
  labelled_iff : ∀ line ∈ programLines l.lines, ∀ id, line.head = id ++ [':'] →
    l.InsideOn line.number → (l.LabelledOn line.number (Text.upper id) ↔
      ∀ name, (line.number, .invalidLabelId name) ∉ l.report.errors ∧
        (line.number, .duplicateId name) ∉ l.report.errors)
  /-- The names are what the declaring lines call for, in their order. -/
  names_enter : List.Forall₂ l.Enters l.declaringLines l.names.entries
  keys_nodup : l.names.keys.Nodup
  keys_capital : ∀ key ∈ l.names.keys, isCapitalName key = true
  /-- The table takes every declaration that a line was granted. -/
  insert_ok : ∀ r ∈ l.records, ∀ id kind, r.verdict.effect.declared? = some (id, kind) →
    r.before.names.insert id ⟨kind, r.before.counter⟩ = .ok r.next.names
  start_of_none : l.items = [] → l.startAddress = 0
  start_of_lowest : ∀ n item, (n, item) ∈ l.items →
    (∀ m item', (m, item') ∈ l.items → n ≤ m) → l.addressAt? n = some l.startAddress
  entry_of_none : (∀ n i, (n, .instruction i) ∉ l.items) → l.entryPoint = 0
  entry_of_lowest : ∀ n i, (n, .instruction i) ∈ l.items →
    (∀ m i', (m, .instruction i') ∈ l.items → n ≤ m) → l.addressAt? n = some l.entryPoint
  opens_once : ∀ n m, l.OpensOn n → l.OpensOn m → n = m
  closes_once : ∀ n m, l.ClosesOn n → l.ClosesOn m → n = m
  /-- Items and declarations stand inside the segment. -/
  between : ∀ n, n ∈ l.items.map Prod.fst ∨ n ∈ l.declaringLines.map CodeLine.number →
    (∃ o, l.OpensOn o ∧ o < n) ∧ ∀ c, l.ClosesOn c → n < c

/-- **Every layout of a source is consistent.** -/
theorem tables_consistent (source : Text) : (ofSource source).Consistent where
  address_of_item n item hitem := by
    obtain ⟨r, hr, rfl, heffect⟩ := mem_items_iff.mp hitem
    refine ⟨_, addressAt?_of_item hr heffect, ?_⟩
    rintro i rfl
    obtain ⟨r', hr', -, hnumber, -, -, hhere⟩ := formed_of_mem_items hitem
    rw [hhere, eq_of_number_eq hr' hr hnumber]
  declaring_ascending := pairwise_declaringLines source
  declaring_iff _ := mem_declaringLines_iff
  labelled_iff _ hline _ hhead hinside := labelledOn_iff hline hhead hinside
  names_enter := enters_names source
  keys_nodup := nodup_keys_names source
  keys_capital _ hkey := isCapitalName_of_mem_keys hkey
  insert_ok _ hr _ _ hdeclared := insert_of_declared? hr hdeclared
  start_of_none hnone := (firstAddress_items isSome_item?_iff).1 (by simp [hnone])
  start_of_lowest n item hitem hlow :=
    (firstAddress_items isSome_item?_iff).2 n item hitem trivial
      fun m item' hitem' _ => hlow m item' hitem'
  entry_of_none hnone := by
    refine (firstAddress_items isCollected_iff_item?).1 ?_
    rintro ⟨n, item⟩ hitem ⟨i, rfl⟩
    exact hnone n i hitem
  entry_of_lowest n i hitem hlow := by
    refine (firstAddress_items isCollected_iff_item?).2 n _ hitem ⟨i, rfl⟩ ?_
    rintro m item' hitem' ⟨i', rfl⟩
    exact hlow m i' hitem'
  opens_once _ _ := opensOn_unique
  closes_once _ _ := closesOn_unique
  between n hn := by
    rcases hn with hitem | hdeclaring
    · obtain ⟨⟨m, item⟩, hentry, rfl⟩ := List.mem_map.mp hitem
      obtain ⟨r, hr, rfl, heffect⟩ := mem_items_iff.mp hentry
      exact between_of_mem_records hr (Or.inl (by rw [heffect]; rfl))
    · obtain ⟨line, hline, rfl⟩ := List.mem_map.mp hdeclaring
      obtain ⟨r, hr, hmap⟩ := List.mem_filterMap.mp hline
      obtain ⟨entry, hentry, rfl⟩ := Option.map_eq_some_iff.mp hmap
      obtain ⟨declared, hdeclared, -⟩ := Option.map_eq_some_iff.mp hentry
      exact between_of_mem_records hr (Or.inr (by rw [hdeclared]; rfl))

/-- The data and the label are the names, each with the address of its line. -/
example :
    let l := ofSource "S SEGMENT\nORG 16\nX DW 1, ?\nL:\nMOV AX, X\nS ENDS".toList
    l.report.errors = [] ∧ l.declaringLines.map CodeLine.number = [3, 4] ∧
      l.names.entries = [("X".toList, ⟨.word, 16⟩), ("L".toList, ⟨.label, 20⟩)] ∧
      l.items.map Prod.fst = [3, 5] ∧ l.startAddress = 16 ∧ l.entryPoint = 20 := by decide

/-- A name that is taken, one that is none and a label behind the segment: none of
them enters the tables. -/
example :
    let l := ofSource "S SEGMENT\nX DW 1\nx:\n1:\nS ENDS\nL:".toList
    l.report.errors = [(3, .duplicateId "X".toList), (4, .invalidLabelId "1".toList),
        (6, .outsideSegment)] ∧
      l.declaringLines.map CodeLine.number = [2] ∧
      l.names.entries = [("X".toList, ⟨.word, 0⟩)] := by decide

end Layout

end SegmentAssembler
