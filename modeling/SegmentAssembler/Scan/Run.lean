import SegmentAssembler.Scan.Verdict

/-!
# The run of the scan

The run of a program is kept as one record per line: the line, the state
before it and the verdict on it.  Everything that the scan yields — items,
addresses, names, findings — is read off these records.

* `run_append` — the run of a longer program continues the run of its
  beginning;
* `map_line_run` — there is one record per line, in order.
-/

namespace SegmentAssembler

/-- What happened on a line. -/
structure Record where
  line : CodeLine
  before : State
  verdict : Verdict
deriving DecidableEq, Repr

namespace Record

/-- The state after the line. -/
def next (r : Record) : State := r.before.apply r.verdict.effect

/-- The address that the listing shows, with its line. -/
def address? (r : Record) : Option (Nat × Nat) :=
  if r.verdict.effect.hasAddress then some (r.line.number, r.before.counter) else none

/-- The item that the line contributes, with its line. -/
def item? (r : Record) : Option (Nat × Item) :=
  r.verdict.effect.item?.map fun item => (r.line.number, item)

/-- The findings of the line, with its number. -/
def findings (r : Record) : List (Nat × Finding) :=
  r.verdict.findings.map fun f => (r.line.number, f)

end Record

namespace State

/-- What happens on the next line. -/
def scan (s : State) (line : CodeLine) : Record := ⟨line, s, s.judge line⟩

/-- What happens on a sequence of lines. -/
def run : State → List CodeLine → List Record
  | _, [] => []
  | s, line :: rest => s.scan line :: run (s.scan line).next rest

/-- The state after the last of the records. -/
def finish (s : State) (records : List Record) : State :=
  match records.getLast? with
  | some r => r.next
  | none => s

@[simp] theorem run_nil (s : State) : s.run [] = [] := rfl

@[simp] theorem run_cons (s : State) (line : CodeLine) (rest : List CodeLine) :
    s.run (line :: rest) = s.scan line :: run (s.scan line).next rest := rfl

@[simp] theorem finish_nil (s : State) : s.finish [] = s := rfl

/-- The last state of a run is that of the rest behind its first record. -/
@[simp] theorem finish_cons (s : State) (r : Record) (rest : List Record) :
    s.finish (r :: rest) = r.next.finish rest := by
  simp only [finish, List.getLast?_cons]
  cases rest.getLast? <;> rfl

/-- **Runs continue.**  A longer program first does what its beginning does. -/
theorem run_append (s : State) (lines more : List CodeLine) :
    s.run (lines ++ more) = s.run lines ++ (s.finish (s.run lines)).run more := by
  induction lines generalizing s with
  | nil => rfl
  | cons line rest ih => simp [ih]

/-- There is one record per line, in order. -/
theorem map_line_run (s : State) (lines : List CodeLine) :
    (s.run lines).map Record.line = lines := by
  induction lines generalizing s with
  | nil => rfl
  | cons line rest ih => simp [ih, scan]

end State

end SegmentAssembler
