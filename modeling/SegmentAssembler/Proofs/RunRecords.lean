import Mathlib.Algebra.Order.Ring.Int
import SegmentAssembler.Layout
import SegmentAssembler.Proofs.Admission

/-!
# The records of a program

A layout is read off the records of its run.  This file says how the records
hang together:

* `run_split` — a run that is cut in two is two runs, the second from the
  state that the first one reaches; so the state before a record is what the
  records in front of it amount to (`before_of_run_split`);
* `counter_finish_run` — the counter after a run is the counter before it and
  all shifts of its lines, and the shift of a line is the size of its item
  unless the line moves the counter (`shift_eq_advance`);
* `pairwise_line_records` — records stand in the order of their lines and no
  two on one line, so that a line has at most one address
  (`addressAt?_of_mem_records`).
-/

namespace SegmentAssembler

/-- The distance by which a line moves the counter. -/
def Record.shift (r : Record) : Int := r.next.counter - r.before.counter

/-- The address that the listing shows beside a line. -/
def Layout.addressAt? (l : Layout) (line : Nat) : Option Nat := l.addresses.lookup line

/-! ### Runs in two parts -/

namespace State

/-- **A run cut in two is two runs.** -/
theorem run_split {s : State} {lines : List CodeLine} {pre post : List Record}
    (h : s.run lines = pre ++ post) :
    ∃ before after, lines = before ++ after ∧ s.run before = pre ∧
      (s.finish pre).run after = post := by
  induction pre generalizing s lines with
  | nil => exact ⟨[], lines, rfl, rfl, h⟩
  | cons r pre ih =>
      cases lines with
      | nil => exact nomatch h
      | cons line rest =>
          rw [run_cons, List.cons_append, List.cons.injEq] at h
          obtain ⟨rfl, hrest⟩ := h
          obtain ⟨before, after, rfl, hpre, hpost⟩ := ih hrest
          exact ⟨line :: before, after, rfl, by rw [run_cons, hpre], by rwa [finish_cons]⟩

/-- The state before a record is the state that the records in front of it reach. -/
theorem before_of_run_split {s : State} {lines : List CodeLine} {pre post : List Record}
    {r : Record} (h : s.run lines = pre ++ r :: post) : r.before = s.finish pre := by
  obtain ⟨before, after, -, -, hpost⟩ := run_split h
  cases after with
  | nil => exact nomatch hpost
  | cons line rest =>
      rw [run_cons, List.cons.injEq] at hpost
      exact congrArg Record.before hpost.1.symm

/-- **The counter adds up the shifts.** -/
theorem counter_finish_run (s : State) (lines : List CodeLine) :
    ((s.finish (s.run lines)).counter : Int) =
      s.counter + ((s.run lines).map Record.shift).sum := by
  induction lines generalizing s with
  | nil => simp
  | cons line rest ih =>
      have hshift : (s.scan line).shift = (s.scan line).next.counter - s.counter := rfl
      rw [run_cons, finish_cons, ih, List.map_cons, List.sum_cons]
      omega

/-- A line that does not move the counter shifts it by the size of its item. -/
theorem shift_eq_advance {s : State} {lines : List CodeLine} {r : Record}
    (hr : r ∈ s.run lines) (hline : r.line.movesCounter = false) :
    r.shift = r.verdict.effect.advance := by
  have hcounter := (admits_of_mem_run hr).counter_eq_add_advance hline
  unfold Record.shift Record.next
  omega

/-- The lines that contribute an item do not move the counter. -/
theorem not_movesCounter_of_item {s : State} {lines : List CodeLine} {r : Record} {item : Item}
    (hr : r ∈ s.run lines) (hitem : r.verdict.effect.item? = some item) :
    r.line.movesCounter = false := by
  cases hline : r.line.movesCounter with
  | false => rfl
  | true =>
      have hnone := (admits_of_mem_run hr).item?_eq_none hline
      rw [hitem] at hnone
      exact nomatch hnone

/-- A line that contributes an item shifts the counter by its size. -/
theorem shift_eq_size {s : State} {lines : List CodeLine} {r : Record} {item : Item}
    (hr : r ∈ s.run lines) (hitem : r.verdict.effect.item? = some item) :
    r.shift = item.size := by
  rw [shift_eq_advance hr (not_movesCounter_of_item hr hitem)]
  simp [Effect.advance, hitem]

end State

/-! ### The order of lines -/

/-- Lines are numbered upwards. -/
theorem pairwise_number_splitLines (source : Text) :
    (splitLines source).Pairwise fun a b => a.number < b.number := by
  unfold splitLines
  rw [List.pairwise_map]
  have hindices : (((source.splitOn '\n').zipIdx 1).map Prod.snd).Pairwise (· < ·) := by
    rw [List.zipIdx_map_snd]
    exact List.pairwise_lt_range'
  exact List.pairwise_map.mp hindices

/-- A code line keeps the number of its line. -/
theorem Line.number_of_code? {line : Line} {code : CodeLine} (h : line.code? = some code) :
    code.number = line.number := by
  unfold code? at h
  split at h
  · exact nomatch h
  · cases h
    rfl

/-- So are the code lines. -/
theorem pairwise_number_codeLines (source : Text) :
    (codeLines (splitLines source)).Pairwise fun a b => a.number < b.number := by
  refine List.Pairwise.filterMap _ ?_ (pairwise_number_splitLines source)
  intro line line' hlt code hline code' hline'
  rw [Line.number_of_code? hline, Line.number_of_code? hline']
  exact hlt

/-- So are the lines of a program. -/
theorem pairwise_number_programLines (source : Text) :
    (programLines (splitLines source)).Pairwise fun a b => a.number < b.number :=
  (pairwise_number_codeLines source).sublist (List.takeWhile_sublist _)

namespace Layout

/-- The records of a source are a run from the initial state. -/
theorem records_ofSource (source : Text) :
    (ofSource source).records = State.run {} (programLines (splitLines source)) := rfl

/-- The line of a record is a line of the program. -/
theorem line_mem_programLines {source : Text} {r : Record}
    (hr : r ∈ (ofSource source).records) : r.line ∈ programLines (splitLines source) := by
  rw [← State.map_line_run {} (programLines (splitLines source))]
  exact List.mem_map_of_mem hr

/-- **Records stand in the order of their lines.** -/
theorem pairwise_line_records (source : Text) :
    (ofSource source).records.Pairwise fun r r' => r.line.number < r'.line.number := by
  have hlines := pairwise_number_programLines source
  rw [← State.map_line_run {} (programLines (splitLines source)), List.pairwise_map] at hlines
  exact hlines

/-- No two records stand on one line. -/
theorem eq_of_number_eq {source : Text} {r r' : Record} (hr : r ∈ (ofSource source).records)
    (hr' : r' ∈ (ofSource source).records) (h : r.line.number = r'.line.number) : r = r' := by
  have hsorted := pairwise_line_records source
  refine List.Pairwise.forall_of_forall_of_flip
    (R := fun a b => a.line.number = b.line.number → a = b)
    (fun _ _ _ => rfl) (hsorted.imp ?_) (hsorted.imp ?_) hr hr' h
  · intro a b hlt heq
    omega
  · intro a b hlt (heq : b.line.number = a.line.number)
    omega

/-- The effect of every record of a source is admitted. -/
theorem admits_of_mem_records {source : Text} {r : Record}
    (hr : r ∈ (ofSource source).records) : r.before.Admits r.line r.verdict.effect :=
  State.admits_of_mem_run hr

/-- No line of a source finds the counter past the top. -/
theorem counter_le_top_of_mem_records {source : Text} {r : Record}
    (hr : r ∈ (ofSource source).records) : r.before.counter ≤ topAddress :=
  State.counter_le_top_of_mem_run (Nat.zero_le _) hr

/-! ### Items and addresses -/

/-- The item of a record stands under the line of the record. -/
theorem item?_eq_some_iff {r : Record} {n : Nat} {item : Item} :
    r.item? = some (n, item) ↔ r.line.number = n ∧ r.verdict.effect.item? = some item := by
  unfold Record.item?
  cases r.verdict.effect.item? with
  | none => simp
  | some other => simp

/-- Items are what the records contribute. -/
theorem mem_items_iff {l : Layout} {n : Nat} {item : Item} :
    (n, item) ∈ l.items ↔
      ∃ r ∈ l.records, r.line.number = n ∧ r.verdict.effect.item? = some item := by
  simp only [items, List.mem_filterMap, item?_eq_some_iff]

/-- The address of a record stands under the line of the record. -/
theorem number_of_address? {r : Record} {entry : Nat × Nat} (h : r.address? = some entry) :
    entry.1 = r.line.number := by
  unfold Record.address? at h
  split at h
  · cases h
    rfl
  · exact nomatch h

/-- **A line has one address**: the counter that its record found. -/
theorem addressAt?_of_mem_records {source : Text} {r : Record}
    (hr : r ∈ (ofSource source).records) (haddress : r.verdict.effect.hasAddress = true) :
    (ofSource source).addressAt? r.line.number = some r.before.counter := by
  obtain ⟨pre, post, hsplit⟩ := List.append_of_mem hr
  have hsorted := pairwise_line_records source
  rw [hsplit] at hsorted
  have hshown : r.address? = some (r.line.number, r.before.counter) := by
    simp [Record.address?, haddress]
  rw [addressAt?, List.lookup_eq_some_iff]
  refine ⟨pre.filterMap Record.address?, post.filterMap Record.address?, ?_, ?_⟩
  · rw [addresses, hsplit, List.filterMap_append, List.filterMap_cons_some hshown]
  · intro entry hentry
    obtain ⟨r', hr', hentry⟩ := List.mem_filterMap.mp hentry
    have hlt := (List.pairwise_append.mp hsorted).2.2 r' hr' r List.mem_cons_self
    have hnumber := number_of_address? hentry
    simp only [bne_iff_ne, ne_eq]
    omega

/-- A line with an item has an address. -/
theorem addressAt?_of_item {source : Text} {r : Record} {item : Item}
    (hr : r ∈ (ofSource source).records) (hitem : r.verdict.effect.item? = some item) :
    (ofSource source).addressAt? r.line.number = some r.before.counter := by
  apply addressAt?_of_mem_records hr
  cases heffect : r.verdict.effect with
  | defined id type values => rfl
  | collected m i => rfl
  | _ => simp [heffect, Effect.item?] at hitem

/-- Items stand in the order of their lines. -/
theorem pairwise_items (source : Text) :
    (ofSource source).items.Pairwise fun a b => a.1 < b.1 := by
  refine List.Pairwise.filterMap _ ?_ (pairwise_line_records source)
  intro r r' hlt entry hentry entry' hentry'
  obtain ⟨hnumber, -⟩ := item?_eq_some_iff.mp (Option.mem_def.mp hentry)
  obtain ⟨hnumber', -⟩ := item?_eq_some_iff.mp (Option.mem_def.mp hentry')
  rw [← hnumber, ← hnumber']
  exact hlt

end Layout

end SegmentAssembler
