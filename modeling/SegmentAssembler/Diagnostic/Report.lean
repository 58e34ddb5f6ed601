import SegmentAssembler.Diagnostic.Basic

/-!
# The report of an assembly

Errors and warnings are recorded with the number of the line they concern, in
any order of lines, and only ever added.  They are read back line by line:
`byLine` lists the lines that have a record in ascending order, and under each
line its records in the order in which they came.
-/

namespace SegmentAssembler

/-- A diagnostic on a line. -/
abbrev LineRecord := Nat × Diagnostic

/-- Records gathered under their lines. -/
abbrev LineLog := List (Nat × List Diagnostic)

/-- Put a record in front of what is already filed under its line. -/
def file : LineRecord → LineLog → LineLog
  | (line, d), [] => [(line, [d])]
  | (line, d), (first, ds) :: rest =>
    if line < first then (line, [d]) :: (first, ds) :: rest
    else if line = first then (first, d :: ds) :: rest
    else (first, ds) :: file (line, d) rest

/-- The records under their lines, lines ascending.  Filing starts from the
last record, so each line keeps the order of its records. -/
def byLine (records : List LineRecord) : LineLog := records.foldr file []

/-- Errors and warnings in the order in which they were recorded. -/
structure Report where
  errors : List LineRecord := []
  warnings : List LineRecord := []
deriving DecidableEq, Repr

namespace Report

/-- Record an error. -/
def error (log : Report) (line : Nat) (d : Diagnostic) : Report :=
  { log with errors := log.errors ++ [(line, d)] }

/-- Record a warning. -/
def warning (log : Report) (line : Nat) (d : Diagnostic) : Report :=
  { log with warnings := log.warnings ++ [(line, d)] }

/-- Record a finding by its severity. -/
def record (log : Report) (line : Nat) (f : Finding) : Report :=
  match f.severity with
  | .error => log.error line f.diagnostic
  | .warning => log.warning line f.diagnostic

/-- The findings of one severity, with their lines. -/
def select (severity : Severity) (findings : List (Nat × Finding)) : List LineRecord :=
  findings.filterMap fun found =>
    if found.2.severity = severity then some (found.1, found.2.diagnostic) else none

/-- The log of a sequence of findings. -/
def ofFindings (findings : List (Nat × Finding)) : Report :=
  ⟨select .error findings, select .warning findings⟩

/-- The errors under their lines. -/
def errorLines (log : Report) : LineLog := byLine log.errors

/-- The warnings under their lines. -/
def warningLines (log : Report) : LineLog := byLine log.warnings

def errorCount (log : Report) : Nat := log.errors.length

def hasErrors (log : Report) : Bool := !log.errors.isEmpty

/-- There are no errors exactly if no finding is one. -/
theorem hasErrors_ofFindings_eq_false_iff {findings : List (Nat × Finding)} :
    (ofFindings findings).hasErrors = false ↔ ∀ found ∈ findings, found.2.severity ≠ .error := by
  simp [hasErrors, ofFindings, select, List.filterMap_eq_nil_iff]

/-- Taking findings in bulk is recording them one after the other. -/
theorem ofFindings_eq_foldl (findings : List (Nat × Finding)) :
    ofFindings findings = findings.foldl (fun log found => log.record found.1 found.2) {} := by
  have general : ∀ (fs : List (Nat × Finding)) (log : Report),
      fs.foldl (fun log found => log.record found.1 found.2) log =
        ⟨log.errors ++ select .error fs, log.warnings ++ select .warning fs⟩ := by
    intro fs
    induction fs with
    | nil => intro log; simp [select]
    | cons found rest ih =>
      obtain ⟨line, severity, d⟩ := found
      intro log
      rw [List.foldl_cons, ih]
      cases severity <;> simp [record, error, warning, select]
  rw [general]
  simp [ofFindings]

end Report

end SegmentAssembler
