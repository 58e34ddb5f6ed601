import Mathlib.Data.List.Induction
import SegmentAssembler.Proofs.ReportOrder

/-!
# Every call is kept in the report

The assembler reports as it goes, with one call for each error and each warning,
and in no order of lines: the second pass comes back to lines that the first one
has passed, and a wrong length is reported on the last line before that.

    calls       error 4 a   warning 2 b   error 2 c   error 4 d
    errors      2: c        4: a d
    warnings    2: b

Read by lines, the report is a table for errors and one for warnings, and one more
call touches one line of one of them:

* `lookup_byLine` — a line has its records, in the order of the report, and no
  line stands there without one (`ne_nil_of_mem_byLine`);
* `lookup_lines_record` — a call puts its diagnostic behind those of its line and
  leaves every other line and the other table as they are;
* `lookup_lines_recordAll` — so after any calls a line has what the calls for it
  said.

`calls_kept` puts this together for every history of calls.
-/

namespace SegmentAssembler

/-! ### Reading one line -/

/-- What stands under a line: nothing rather than an empty list. -/
def LineLog.listed (ds : List Diagnostic) : Option (List Diagnostic) :=
  if ds = [] then none else some ds

namespace LineLog

@[simp] theorem getD_listed (ds : List Diagnostic) : (listed ds).getD [] = ds := by
  by_cases h : ds = []
  · rw [listed, if_pos h, h]
    rfl
  · rw [listed, if_neg h]
    rfl

/-- A line with a call on it is listed. -/
theorem listed_concat (ds : List Diagnostic) (d : Diagnostic) :
    listed (ds ++ [d]) = some (ds ++ [d]) := if_neg (by simp)

/-- What is listed under a line is not empty, and it is all that was recorded there. -/
theorem listed_eq_some_iff {ds ds' : List Diagnostic} :
    listed ds = some ds' ↔ ds' = ds ∧ ds' ≠ [] := by
  by_cases h : ds = []
  · simp [listed, h]
  · simp only [listed, if_neg h, Option.some.injEq]
    constructor
    · intro heq
      exact ⟨heq.symm, heq ▸ h⟩
    · intro heq
      exact heq.1.symm

/-- The records of a line are those that stand under it. -/
theorem map_snd_filter_records (log : LineLog) (n : Nat) :
    ((records log).filter fun r => decide (r.1 = n)).map Prod.snd =
      ((log.filter fun entry => decide (entry.1 = n)).map Prod.snd).flatten := by
  induction log with
  | nil => rfl
  | cons entry rest ih =>
      obtain ⟨m, ds⟩ := entry
      rw [records_cons, List.filter_append, List.map_append, ih]
      by_cases hn : m = n
      · simp [hn, List.filter_map, Function.comp_def]
      · simp [hn, List.filter_map, Function.comp_def]

/-- The records of a log are those of its lines together. -/
theorem length_records (log : LineLog) :
    (records log).length = (log.map fun entry => entry.2.length).sum := by
  rw [records, List.length_flatMap]
  simp

/-- Filing a record leaves no line without one. -/
theorem ne_nil_of_mem_file {r : LineRecord} {log : LineLog} (h : ∀ entry ∈ log, entry.2 ≠ []) :
    ∀ entry ∈ file r log, entry.2 ≠ [] := by
  induction log with
  | nil => exact List.forall_mem_singleton.mpr (List.cons_ne_nil _ _)
  | cons first rest ih =>
      obtain ⟨n, ds⟩ := first
      obtain ⟨hfirst, hrest⟩ := List.forall_mem_cons.mp h
      rw [file]
      split
      · exact List.forall_mem_cons.mpr ⟨List.cons_ne_nil _ _, h⟩
      · split
        · exact List.forall_mem_cons.mpr ⟨List.cons_ne_nil _ _, hrest⟩
        · exact List.forall_mem_cons.mpr ⟨hfirst, ih hrest⟩

end LineLog

/-- **No line stands in the report without a record.** -/
theorem ne_nil_of_mem_byLine (records : List LineRecord) :
    ∀ entry ∈ byLine records, entry.2 ≠ [] := by
  induction records with
  | nil => exact List.forall_mem_nil _
  | cons r rest ih => exact LineLog.ne_nil_of_mem_file ih

/-- **A line has its records**, in the order in which they came. -/
theorem lookup_byLine (records : List LineRecord) (n : Nat) :
    (byLine records).lookup n =
      LineLog.listed ((records.filter fun r => decide (r.1 = n)).map Prod.snd) := by
  have hascending := ascending_byLine records
  rw [← (byLines_byLine records).order, LineLog.map_snd_filter_records,
    hascending.map_snd_filter]
  cases hlookup : (byLine records).lookup n with
  | none => rfl
  | some ds =>
      have hmem := hascending.lookup_eq_some_iff.mp hlookup
      have hne : ds ≠ [] := ne_nil_of_mem_byLine records _ hmem
      simp [LineLog.listed, hne]

/-- Filing by lines loses no record and adds none. -/
theorem length_byLine (records : List LineRecord) :
    ((byLine records).map fun entry => entry.2.length).sum = records.length := by
  rw [← LineLog.length_records]
  exact (byLines_byLine records).perm.length_eq

/-- There are no lines exactly if there are no records. -/
theorem byLine_eq_nil_iff {records : List LineRecord} : byLine records = [] ↔ records = [] := by
  constructor
  · intro h
    have hlength := length_byLine records
    rw [h] at hlength
    exact List.eq_nil_of_length_eq_zero hlength.symm
  · intro h
    rw [h]
    rfl

/-! ### Calls -/

namespace Report

/-- The table of one severity. -/
def lines (log : Report) : Severity → LineLog
  | .error => log.errorLines
  | .warning => log.warningLines

/-- The report after some calls, each for a line. -/
def recordAll (log : Report) (calls : List (Nat × Finding)) : Report :=
  calls.foldl (fun log call => log.record call.1 call.2) log

/-- What the calls of one severity for one line said, in their order. -/
def said (severity : Severity) (n : Nat) (calls : List (Nat × Finding)) : List Diagnostic :=
  (calls.filter fun call => decide (call.1 = n ∧ call.2.severity = severity)).map
    fun call => call.2.diagnostic

/-- The last call meets the report of the calls before it. -/
theorem recordAll_concat (log : Report) (calls : List (Nat × Finding)) (call : Nat × Finding) :
    log.recordAll (calls ++ [call]) = (log.recordAll calls).record call.1 call.2 := by
  simp [recordAll]

/-- The last call is said last, and on its own line only. -/
theorem said_concat (severity : Severity) (n : Nat) (calls : List (Nat × Finding))
    (call : Nat × Finding) :
    said severity n (calls ++ [call]) = said severity n calls ++
      if call.1 = n ∧ call.2.severity = severity then [call.2.diagnostic] else [] := by
  by_cases h : call.1 = n ∧ call.2.severity = severity
  · simp [said, h]
  · simp [said, h]

/-- A call adds one diagnostic on its line and changes no other. -/
theorem on_record (log : Report) (m : Nat) (f : Finding) (severity : Severity) (n : Nat) :
    (log.record m f).on severity n = log.on severity n ++
      if m = n ∧ f.severity = severity then [f.diagnostic] else [] := by
  obtain ⟨weight, d⟩ := f
  by_cases hn : m = n
  · cases severity <;> cases weight <;> simp [on, record, error, warning, hn]
  · cases severity <;> cases weight <;> simp [on, record, error, warning, hn]

/-- Under a line stands what the report says on it, if it says anything. -/
theorem lookup_lines (log : Report) (severity : Severity) (n : Nat) :
    (log.lines severity).lookup n = LineLog.listed (log.on severity n) := by
  cases severity with
  | error => exact lookup_byLine log.errors n
  | warning => exact lookup_byLine log.warnings n

/-- **One call** puts its diagnostic behind those of its line and touches nothing
else. -/
theorem lookup_lines_record (log : Report) (m : Nat) (f : Finding) (severity : Severity)
    (n : Nat) :
    ((log.record m f).lines severity).lookup n =
      if m = n ∧ f.severity = severity then
        some (((log.lines severity).lookup n).getD [] ++ [f.diagnostic])
      else (log.lines severity).lookup n := by
  rw [lookup_lines, lookup_lines, on_record, LineLog.getD_listed]
  by_cases h : m = n ∧ f.severity = severity
  · rw [if_pos h, if_pos h, LineLog.listed_concat]
  · rw [if_neg h, if_neg h, List.append_nil]

/-- **After any calls** a line has what the calls for it said. -/
theorem lookup_lines_recordAll (calls : List (Nat × Finding)) (severity : Severity) (n : Nat) :
    ((recordAll {} calls).lines severity).lookup n = LineLog.listed (said severity n calls) := by
  induction calls using List.reverseRecOn with
  | nil => cases severity <;> rfl
  | append_singleton calls call ih =>
      rw [recordAll_concat, lookup_lines_record, ih, said_concat, LineLog.getD_listed]
      by_cases h : call.1 = n ∧ call.2.severity = severity
      · rw [if_pos h, if_pos h, LineLog.listed_concat]
      · rw [if_neg h, if_neg h, List.append_nil]

theorem ascending_lines (log : Report) (severity : Severity) : Ascending (log.lines severity) := by
  cases severity with
  | error => exact ascending_byLine log.errors
  | warning => exact ascending_byLine log.warnings

theorem select_eq_map_filter (severity : Severity) (calls : List (Nat × Finding)) :
    select severity calls = (calls.filter fun call => decide (call.2.severity = severity)).map
      fun call => (call.1, call.2.diagnostic) := by
  induction calls with
  | nil => rfl
  | cons call rest ih =>
      rw [select] at ih ⊢
      by_cases h : call.2.severity = severity
      · simp [h, ih]
      · simp [h, ih]

/-- A table has the calls of its severity and knows of no others. -/
theorem lines_recordAll (calls : List (Nat × Finding)) (severity : Severity) :
    (recordAll {} calls).lines severity = byLine (select severity calls) := by
  rw [recordAll, ← ofFindings_eq_foldl]
  cases severity <;> rfl

/-- Every call for an error counts once. -/
theorem errorCount_recordAll (calls : List (Nat × Finding)) :
    (recordAll {} calls).errorCount =
      (calls.filter fun call => decide (call.2.severity = .error)).length := by
  rw [recordAll, ← ofFindings_eq_foldl, errorCount, ofFindings, select_eq_map_filter,
    List.length_map]

theorem hasErrors_iff {log : Report} : log.hasErrors = true ↔ log.errors ≠ [] := by
  simp [hasErrors]

/-! ### Every history of calls -/

/-- **Every call is kept.**  Whatever errors and warnings are reported to a fresh
report, on whatever lines and in whatever order:

* in both tables a line has exactly what the calls of that severity for it said, in
  their order, and no line stands there with an empty list;
* lines ascend, so that each stands once;
* the calls of the other severity leave no trace in a table;
* errors are counted call by call, which is also what stands in the table of errors;
* and there are errors exactly if their number is not zero. -/
theorem calls_kept (calls : List (Nat × Finding)) :
    let log := recordAll {} calls
    (∀ severity n, (log.lines severity).lookup n =
      if said severity n calls = [] then none else some (said severity n calls)) ∧
    (∀ severity, ∀ entry ∈ log.lines severity,
      entry.2 = said severity entry.1 calls ∧ entry.2 ≠ []) ∧
    (∀ severity, (log.lines severity).Pairwise fun a b => a.1 < b.1) ∧
    (∀ severity, log.lines severity =
      (recordAll {} (calls.filter fun call => decide (call.2.severity = severity))).lines
        severity) ∧
    (log.errorCount = (calls.filter fun call => decide (call.2.severity = .error)).length ∧
      log.errorCount = (log.errorLines.map fun entry => entry.2.length).sum) ∧
    (log.hasErrors = true ↔ 0 < log.errorCount) ∧
    (log.hasErrors = true ↔ log.errorLines ≠ []) := by
  intro log
  refine ⟨lookup_lines_recordAll calls, ?_, log.ascending_lines, ?_,
    ⟨errorCount_recordAll calls, (length_byLine log.errors).symm⟩, ?_, ?_⟩
  · intro severity entry hentry
    have hlookup := (log.ascending_lines severity).lookup_eq_some_iff.mpr hentry
    rw [lookup_lines_recordAll] at hlookup
    exact LineLog.listed_eq_some_iff.mp hlookup
  · intro severity
    rw [lines_recordAll, lines_recordAll, select_eq_map_filter, select_eq_map_filter,
      List.filter_filter]
    simp
  · rw [hasErrors_iff, errorCount, List.length_pos_iff]
  · rw [hasErrors_iff, errorLines, Ne, Ne, byLine_eq_nil_iff]

/-- Lines that are come back to, with a warning between the errors of one line. -/
theorem calls_kept_out_of_order :
    let calls : List (Nat × Finding) :=
      [(4, Diagnostic.invalidOperands.asError), (2, Diagnostic.missingOperand.asWarning),
        (2, Diagnostic.outsideSegment.asError), (4, Diagnostic.missingOperand.asWarning),
        (4, (Diagnostic.undeclared ['X']).asError)]
    let log := recordAll {} calls
    log.errorLines.lookup 4 = some [.invalidOperands, .undeclared ['X']] ∧
    log.errorLines.lookup 3 = none ∧
    ((2, [.outsideSegment]) ∈ log.errorLines ∧
      [Diagnostic.outsideSegment] = said .error 2 calls) ∧
    log.warningLines.lookup 4 = some [.missingOperand] ∧
    log.errorCount = 3 ∧ log.hasErrors = true := by
  intro calls log
  obtain ⟨hlookup, hentries, -, -, ⟨hcount, -⟩, hhas, -⟩ := calls_kept calls
  have hthree : log.errorCount = 3 := hcount
  have hmem : (2, [.outsideSegment]) ∈ log.errorLines := by decide
  exact ⟨hlookup .error 4, hlookup .error 3, ⟨hmem, (hentries .error _ hmem).1⟩,
    hlookup .warning 4, hthree, hhas.mpr (by rw [hthree]; decide)⟩

end Report

end SegmentAssembler
