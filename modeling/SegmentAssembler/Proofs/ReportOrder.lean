import SegmentAssembler.Proofs.ImageLines

/-!
# Reports in the order of lines

Diagnostics are recorded as they are found, on any line at any time, and read
back line by line.  Reading back is a stable sort:

    recorded    (4, a)  (2, b)  (4, c)  (1, d)
    read back   (1, d)  (2, b)  (4, a)  (4, c)

* `ascending_byLine` — each line with records stands once, lines ascending;
* `byLines_byLine` — the records of the log are the records of the report, by
  ascending lines, and those of one line in the order in which they came.
-/

namespace SegmentAssembler

/-- The records of a log, line after line. -/
def LineLog.records (log : LineLog) : List LineRecord :=
  log.flatMap fun entry => entry.2.map fun d => (entry.1, d)

/-- The same records by ascending lines, where records of one line keep their order. -/
structure ByLines (records sorted : List LineRecord) : Prop where
  perm : sorted.Perm records
  ascending : sorted.Pairwise fun a b => a.1 ≤ b.1
  order : ∀ n, sorted.filter (fun r => decide (r.1 = n)) =
    records.filter fun r => decide (r.1 = n)

namespace LineLog

@[simp] theorem records_cons (n : Nat) (ds : List Diagnostic) (log : LineLog) :
    records ((n, ds) :: log) = (ds.map fun d => (n, d)) ++ records log := rfl

/-! ### Filing one record -/

/-- Filing a record adds no line but its own. -/
theorem line_of_mem_file {r : LineRecord} {log : LineLog} {entry : Nat × List Diagnostic}
    (h : entry ∈ file r log) : entry.1 = r.1 ∨ ∃ other ∈ log, entry.1 = other.1 := by
  induction log with
  | nil =>
      left
      rw [List.mem_singleton.mp h]
  | cons first rest ih =>
      obtain ⟨n, ds⟩ := first
      rw [file] at h
      split at h
      · rcases List.mem_cons.mp h with rfl | h
        · exact Or.inl rfl
        · exact Or.inr ⟨entry, h, rfl⟩
      · split at h
        · rcases List.mem_cons.mp h with rfl | h
          · exact Or.inr ⟨(n, ds), List.mem_cons_self, rfl⟩
          · exact Or.inr ⟨entry, List.mem_cons_of_mem _ h, rfl⟩
        · rcases List.mem_cons.mp h with rfl | h
          · exact Or.inr ⟨(n, ds), List.mem_cons_self, rfl⟩
          · rcases ih h with heq | ⟨other, hother, heq⟩
            · exact Or.inl heq
            · exact Or.inr ⟨other, List.mem_cons_of_mem _ hother, heq⟩

/-- Filing a record keeps the lines ascending. -/
theorem ascending_file (r : LineRecord) {log : LineLog} (h : Ascending log) :
    Ascending (file r log) := by
  induction log with
  | nil => exact List.pairwise_singleton _ _
  | cons first rest ih =>
      obtain ⟨n, ds⟩ := first
      obtain ⟨hfirst, hrest⟩ := List.pairwise_cons.mp h
      rw [file]
      split
      · rename_i hlt
        refine List.pairwise_cons.mpr ⟨?_, h⟩
        intro entry hentry
        rcases List.mem_cons.mp hentry with rfl | hentry
        · exact hlt
        · exact Nat.lt_trans hlt (hfirst entry hentry)
      · split
        · exact List.pairwise_cons.mpr ⟨hfirst, hrest⟩
        · refine List.pairwise_cons.mpr ⟨?_, ih hrest⟩
          intro entry hentry
          rcases line_of_mem_file hentry with heq | ⟨other, hother, heq⟩
          · dsimp only
            omega
          · rw [heq]
            exact hfirst other hother

/-- Filing adds the record and nothing else. -/
theorem perm_records_file (r : LineRecord) (log : LineLog) :
    (records (file r log)).Perm (r :: records log) := by
  induction log with
  | nil => exact List.Perm.refl _
  | cons first rest ih =>
      obtain ⟨n, ds⟩ := first
      rw [file]
      split
      · exact List.Perm.refl _
      · split
        · rename_i heq
          rw [records_cons, records_cons, List.map_cons, ← heq]
          exact List.Perm.refl _
        · rw [records_cons, records_cons]
          exact (ih.append_left _).trans List.perm_middle

/-- On its own line the record comes first; all other lines stay as they are. -/
theorem filter_records_file (r : LineRecord) (log : LineLog) (n : Nat) :
    (records (file r log)).filter (fun r => decide (r.1 = n)) =
      (r :: records log).filter fun r => decide (r.1 = n) := by
  induction log with
  | nil => rfl
  | cons first rest ih =>
      obtain ⟨m, ds⟩ := first
      rw [file]
      split
      · rfl
      · split
        · rename_i heq
          rw [records_cons, records_cons, List.map_cons, ← heq]
          rfl
        · rename_i hne
          rw [records_cons, records_cons, List.filter_append, ih]
          by_cases hn : r.1 = n
          · -- the lines passed over are lower ones
            have hnone : (ds.map fun d => (m, d)).filter (fun r => decide (r.1 = n)) = [] := by
              rw [List.filter_eq_nil_iff]
              intro record hrecord
              obtain ⟨d, -, rfl⟩ := List.mem_map.mp hrecord
              simp only [decide_eq_true_eq]
              omega
            rw [List.filter_cons_of_pos (by simpa using hn),
              List.filter_cons_of_pos (by simpa using hn), List.filter_append, hnone]
            rfl
          · rw [List.filter_cons_of_neg (by simpa using hn),
              List.filter_cons_of_neg (by simpa using hn), List.filter_append]

/-- The records of a log come by ascending lines. -/
theorem pairwise_records {log : LineLog} (h : Ascending log) :
    (records log).Pairwise fun a b => a.1 ≤ b.1 := by
  rw [records, List.pairwise_flatMap]
  constructor
  · intro entry _
    rw [List.pairwise_map]
    exact List.pairwise_of_forall fun _ _ => Nat.le_refl _
  · refine h.imp fun {a b} hlt x hx y hy => ?_
    obtain ⟨d, -, rfl⟩ := List.mem_map.mp hx
    obtain ⟨d', -, rfl⟩ := List.mem_map.mp hy
    exact Nat.le_of_lt hlt

end LineLog

/-! ### Filing all records -/

/-- **Each line stands once**, lines ascending. -/
theorem ascending_byLine (records : List LineRecord) : Ascending (byLine records) := by
  induction records with
  | nil => exact List.Pairwise.nil
  | cons r rest ih => exact LineLog.ascending_file r ih

/-- **Reading back is a stable sort by lines.** -/
theorem byLines_byLine (records : List LineRecord) :
    ByLines records (LineLog.records (byLine records)) where
  ascending := LineLog.pairwise_records (ascending_byLine records)
  perm := by
    induction records with
    | nil => exact List.Perm.refl _
    | cons r rest ih => exact (LineLog.perm_records_file r _).trans (ih.cons r)
  order := by
    intro n
    induction records with
    | nil => rfl
    | cons r rest ih =>
        have hfile := LineLog.filter_records_file r (byLine rest) n
        rw [List.filter_cons, ih] at hfile
        rw [List.filter_cons]
        exact hfile

end SegmentAssembler
