import Mathlib.Data.List.Nodup
import SegmentAssembler.Proofs.SizeAgreement
import SegmentAssembler.Proofs.SourceEditing
import SegmentAssembler.Proofs.StatementForms

/-!
# A rejected line is as if it were not there

Some complaints about a line are made in passing: a word too many, a faulty
value, a name that does not fit the segment.  With all others the line is
dropped (`Diagnostic.rejects`), and since the scan keeps nothing of a line but
its effect, whatever else the line said is lost with it.

* `effect_of_rejects` — a line with such a complaint has no effect, at whatever
  point of its judgement the complaint was made;
* `run_filter` — a run without its rejected lines is the run of the other lines;
* `without_blankLine` — so a source with such a line emptied has the records of
  the other lines;
* `blank_rejected_line` — and hence the same items, addresses, names and code,
  and the same report on every other line.
-/

namespace SegmentAssembler

/-! ### Complaints that reject -/

/-- A line with this complaint is dropped.  A faulty number rejects the line
only where it would have moved the counter. -/
def Diagnostic.rejects (line : CodeLine) : Diagnostic → Bool
  | segmentExpected | unexpectedDirective _ | outsideSegment | invalidInstruction
  | invalidLabelId _ | duplicateId _ | negativeAddress _ | addressOverflow
  | invalidOperands => true
  | badExpression _ | outOfRange _ _ => line.movesCounter
  | _ => false

/-- The findings do not reject the line. -/
def Tolerable (line : CodeLine) (findings : List Finding) : Prop :=
  ∀ f ∈ findings, f.diagnostic.rejects line = false

/-- The verdict has no effect, or its findings do not reject the line. -/
def Verdict.Settled (line : CodeLine) (v : Verdict) : Prop :=
  v.effect = .rejected ∨ Tolerable line v.findings

section Verdicts

variable {line : CodeLine}

/-- A word too many does not reject the line. -/
theorem tolerable_surplus (rest : List Text) : Tolerable line (surplus rest) := by
  cases rest with
  | nil => exact fun f hf => nomatch hf
  | cons word rest => simp [Tolerable, surplus, Diagnostic.asError, Diagnostic.rejects]

/-- Faulty values do not reject a definition. -/
theorem tolerable_valueFindings (hline : line.movesCounter = false) (type : DataType)
    (words : List Text) : Tolerable line (valueFindings type words) := by
  cases words with
  | nil => simp [Tolerable, valueFindings, Diagnostic.asWarning, Diagnostic.rejects]
  | cons first rest =>
      intro f hf
      obtain ⟨word, -, hfinding⟩ := List.mem_filterMap.mp hf
      unfold definedValue at hfinding
      split at hfinding
      · exact nomatch hfinding
      · rename_i d hfault
        cases hfinding
        -- the fault of a value is that it is no number or out of range
        split at hfault
        · exact nomatch hfault
        · split at hfault
          · cases hfault
            exact hline
          · split at hfault
            · exact nomatch hfault
            · cases hfault
              exact hline

namespace Verdict

theorem Settled.reject (d : Diagnostic) : (Verdict.reject d).Settled line := Or.inl rfl

theorem Settled.accept (e : Effect) : (Verdict.accept e).Settled line :=
  Or.inr fun _ hf => nomatch hf

/-- Findings that do not reject the line may stand in front of a settled verdict. -/
theorem Settled.after {findings : List Finding} {v : Verdict} (hv : v.Settled line)
    (h : Tolerable line findings) : (Verdict.after findings v).Settled line := by
  rcases hv with hrejected | htolerable
  · exact Or.inl hrejected
  · exact Or.inr (List.forall_mem_append.mpr ⟨h, htolerable⟩)

end Verdict

namespace State

open Verdict in
/-- An opening line with an invalid name is not rejected. -/
private theorem settled_opening (s : State) (id : Text) (rest : List Text) :
    (s.judgeOpening id rest).Settled line := by
  cases rest with
  | nil => exact .reject _
  | cons word rest =>
      simp only [judgeOpening]
      split
      · split
        · exact (Settled.accept _).after (tolerable_surplus rest)
        · refine (Settled.accept _).after (List.forall_mem_cons.mpr ⟨rfl, ?_⟩)
          exact tolerable_surplus rest
      · exact .reject _

open Verdict in
/-- A closing line with another name is not rejected. -/
private theorem settled_closing (s : State) (name : Option Text) (rest : List Text) :
    (s.judgeClosing name rest).Settled line := by
  unfold judgeClosing
  split
  · refine (Settled.accept _).after (List.forall_mem_append.mpr ⟨?_, tolerable_surplus rest⟩)
    split
    · split
      · exact fun f hf => nomatch hf
      · exact List.forall_mem_singleton.mpr rfl
    · exact fun f hf => nomatch hf
  · exact .reject _

open Verdict in
/-- An origin is rejected for whatever is wrong with its number. -/
private theorem settled_org (words : List Text) : (judgeOrg words).Settled line := by
  cases words with
  | nil => exact .reject _
  | cons word rest =>
      refine Settled.after ?_ (tolerable_surplus rest)
      split
      · exact .reject _
      · split
        · exact .accept _
        · exact .reject _

open Verdict in
/-- An offset is rejected for whatever is wrong with its number, except for the limit.
-/
private theorem settled_offset (s : State) (words : List Text) :
    (s.judgeOffset words).Settled line := by
  cases words with
  | nil => exact .reject _
  | cons word rest =>
      refine Settled.after ?_ (tolerable_surplus rest)
      split
      · exact .reject _
      · dsimp only
        split
        · exact .reject _
        · split
          · exact .reject _
          · split
            · exact Or.inr (List.forall_mem_singleton.mpr rfl)
            · exact .accept _

open Verdict in
/-- A label is rejected for its name only. -/
private theorem settled_label (s : State) (id : Text) (rest : List Text) :
    (s.judgeLabel id rest).Settled line := by
  unfold judgeLabel
  split
  · exact .reject _
  · split
    · exact .reject _
    · exact (Settled.accept _).after (tolerable_surplus rest)

open Verdict in
/-- A definition is rejected for its name or its size, and not for a faulty value. -/
private theorem settled_definition (s : State) (id : Text) (type : DataType) (words : List Text)
    (hline : line.movesCounter = false) : (s.judgeDefinition id type words).Settled line := by
  unfold judgeDefinition
  split
  · exact .reject _
  · split
    · exact .reject _
    · refine Settled.after ?_ (tolerable_valueFindings hline type words)
      split
      · exact .accept _
      · exact .reject _

open Verdict in
/-- An instruction is rejected for its operands or its size. -/
private theorem settled_instruction (s : State) (m : Mnemonic) (words : List Text) :
    (s.judgeInstruction m words).Settled line := by
  refine Settled.after ?_ (tolerable_surplus _)
  split
  · exact .reject _
  · dsimp only
    split
    · exact .accept _
    · exact .reject _

/-- Outside the segment a line is rejected. -/
private theorem settled_inside {s : State} {v : Verdict} (h : v.Settled line) :
    (s.inside v).Settled line := by
  unfold inside
  split
  · exact h
  · exact .reject _

/-- Every verdict is settled: a complaint that rejects the line goes with no
effect. -/
theorem settled_judge (s : State) (line : CodeLine) : (s.judge line).Settled line := by
  have hlater : (s.judgeStatement (.ofWords line.head line.rest)).Settled line := by
    cases hwords : Statement.ofWords line.head line.rest with
    | instruction m words => exact settled_inside (settled_instruction s m words)
    | org words => exact settled_inside (settled_org words)
    | offset words => exact settled_inside (settled_offset s words)
    | close name rest => exact settled_closing s name rest
    | label id rest => exact settled_inside (settled_label s id rest)
    | define id type words =>
        have hline : line.movesCounter = false := by
          cases hmoves : line.movesCounter with
          | false => rfl
          | true =>
              rcases Statement.ofWords_of_movesCounter hmoves with h | h <;>
                rw [hwords] at h <;> cases h
        exact settled_inside (settled_definition s id type words hline)
    | misplaced directive => exact .reject _
    | unknown => exact .reject _
  unfold judge
  split
  · exact settled_opening s line.head line.rest
  · exact hlater

/-- **A complaint that rejects the line leaves it without effect.** -/
theorem effect_of_rejects {s : State} {line : CodeLine} {f : Finding}
    (hf : f ∈ (s.judge line).findings) (hrejects : f.diagnostic.rejects line = true) :
    (s.judge line).effect = .rejected := by
  rcases settled_judge s line with hrejected | htolerable
  · exact hrejected
  · have hnot := htolerable f hf
    rw [hrejects] at hnot
    exact nomatch hnot

end State

end Verdicts

/-! ### Runs without their rejected lines -/

namespace State

/-- **A run without its rejected lines is the run of the other lines.**  Which
of the rejected lines are left out makes no difference. -/
theorem run_filter {s : State} {lines : List CodeLine} (keep : CodeLine → Bool)
    (h : ∀ r ∈ s.run lines, keep r.line = false → r.verdict.effect = .rejected) :
    s.run (lines.filter keep) = (s.run lines).filter (fun r => keep r.line) ∧
      s.finish (s.run (lines.filter keep)) = s.finish (s.run lines) := by
  induction lines generalizing s with
  | nil => exact ⟨rfl, rfl⟩
  | cons line rest ih =>
      rw [run_cons, List.forall_mem_cons] at h
      obtain ⟨hrun, hfinish⟩ := ih h.2
      cases hkeep : keep line with
      | true =>
          rw [List.filter_cons_of_pos hkeep, run_cons, run_cons, hrun,
            List.filter_cons_of_pos (by exact hkeep), finish_cons, finish_cons, ← hrun, hfinish]
          exact ⟨rfl, rfl⟩
      | false =>
          have hnext : (s.scan line).next = s := by
            rw [Record.next, h.1 hkeep]
            rfl
          rw [hnext] at hrun hfinish
          rw [List.filter_cons_of_neg (by simp [hkeep]), run_cons, finish_cons, hnext,
            List.filter_cons_of_neg (by simp [scan, hkeep])]
          exact ⟨hrun, hfinish⟩

end State

/-! ### What is read off the records -/

namespace Record

/-- A rejected line contributes nothing. -/
theorem item?_of_rejected {r : Record} (h : r.verdict.effect = .rejected) : r.item? = none := by
  rw [item?, h]
  rfl

theorem address?_of_rejected {r : Record} (h : r.verdict.effect = .rejected) :
    r.address? = none := by
  rw [address?, h]
  rfl

end Record

/-- Leaving out elements that contribute nothing. -/
private theorem filterMap_filter_of_none {α β : Type} {f : α → Option β} {keep : α → Bool}
    {xs : List α} (h : ∀ x ∈ xs, keep x = false → f x = none) :
    (xs.filter keep).filterMap f = xs.filterMap f := by
  rw [List.filterMap_filter]
  refine List.filterMap_congr fun x hx => ?_
  cases hkeep : keep x with
  | true => simp
  | false => simp [h x hx hkeep]

namespace Layout

/-- The layouts have everything in common but the text of some lines and the
records on them, which do nothing. -/
structure Without (l l' : Layout) (n : Nat) : Prop where
  records : l'.records = l.records.filter fun r => decide (r.line.number ≠ n)
  rejected : ∀ r ∈ l.records, r.line.number = n → r.verdict.effect = .rejected
  final : l'.final = l.final
  endLine : l'.endLine = l.endLine
  length : l'.lines.length = l.lines.length

namespace Without

variable {l l' : Layout} {n : Nat}

/-- The items stay, since none stood on the line. -/
theorem items_eq (h : l.Without l' n) : l'.items = l.items := by
  rw [items, items, h.records]
  refine filterMap_filter_of_none fun r hr hn => ?_
  exact Record.item?_of_rejected (h.rejected r hr (by simpa using hn))

/-- The addresses stay, since none stood on the line. -/
theorem addresses_eq (h : l.Without l' n) : l'.addresses = l.addresses := by
  rw [addresses, addresses, h.records]
  refine filterMap_filter_of_none fun r hr hn => ?_
  exact Record.address?_of_rejected (h.rejected r hr (by simpa using hn))

/-- The first line of a kind stays the first one. -/
theorem firstAddress_eq (h : l.Without l' n) {p : Effect → Bool} (hp : p .rejected = false) :
    l'.firstAddress p = l.firstAddress p := by
  have hfind : (l'.records.find? fun r => p r.verdict.effect) =
      l.records.find? fun r => p r.verdict.effect := by
    rw [h.records, List.find?_filter]
    refine List.find?_congr fun r hr => ?_
    by_cases hn : r.line.number = n
    · simp [hn, h.rejected r hr hn, hp]
    · simp [hn]
  rw [firstAddress, firstAddress, hfind]

theorem startAddress_eq (h : l.Without l' n) : l'.startAddress = l.startAddress :=
  h.firstAddress_eq rfl

theorem entryPoint_eq (h : l.Without l' n) : l'.entryPoint = l.entryPoint :=
  h.firstAddress_eq rfl

theorem extent_eq (h : l.Without l' n) : l'.extent = l.extent := by
  rw [extent, extent, h.final, h.startAddress_eq]

/-- A missing length is still reported, and on the same line. -/
theorem lengthFindings_eq (h : l.Without l' n) : l'.lengthFindings = l.lengthFindings := by
  have hlast : l'.lastLine = l.lastLine := by
    rw [lastLine, lastLine, h.endLine, h.length]
  rw [lengthFindings, lengthFindings, h.extent_eq, hlast]

/-- The image stays: the same items under the same names. -/
theorem image_eq (h : l.Without l' n) : l'.image = l.image := by
  rw [image, image, names, names, h.final, h.items_eq]

end Without

/-! ### Sources with a line emptied -/

variable {source : Text}

/-- No two code lines have the same number. -/
theorem eq_of_number_eq_of_mem_codeLines {line line' : CodeLine}
    (h : line ∈ codeLines (splitLines source)) (h' : line' ∈ codeLines (splitLines source))
    (hnumber : line.number = line'.number) : line = line' := by
  have hnodup : ((codeLines (splitLines source)).map CodeLine.number).Nodup :=
    List.pairwise_map.mpr ((pairwise_number_codeLines source).imp Nat.ne_of_lt)
  exact List.inj_on_of_nodup_map hnodup h h' hnumber

/-- **Emptying a rejected line takes out its record** and nothing else. -/
theorem without_blankLine {r : Record} (hr : r ∈ (ofSource source).records)
    (hrejected : r.verdict.effect = .rejected) :
    (ofSource source).Without (ofSource (blankLine source r.line.number)) r.line.number := by
  have hall : ∀ other ∈ (ofSource source).records, other.line.number = r.line.number →
      other.verdict.effect = .rejected := by
    intro other hother hnumber
    rw [eq_of_number_eq hother hr hnumber, hrejected]
  have hmem := line_mem_programLines hr
  obtain ⟨hprogram, hend⟩ := programLines_blankLine fun line hline hnumber => by
    rw [eq_of_number_eq_of_mem_codeLines hline ((List.takeWhile_sublist _).mem hmem) hnumber]
    exact isEnd_eq_false_of_mem_programLines hmem
  obtain ⟨hrun, hfinish⟩ := State.run_filter (fun line => decide (line.number ≠ r.line.number))
    fun other hother hkeep => hall other hother (by simpa using hkeep)
  rw [← hprogram] at hrun hfinish
  exact ⟨hrun, hall, hfinish, hend, length_splitLines_blankLine source _⟩

/-! ### The report, line by line -/

/-- The findings on one line. -/
def onLine (k : Nat) (findings : List (Nat × Finding)) : List (Nat × Finding) :=
  findings.filter fun found => decide (found.1 = k)

theorem onLine_append (k : Nat) (fs gs : List (Nat × Finding)) :
    onLine k (fs ++ gs) = onLine k fs ++ onLine k gs :=
  List.filter_append fs gs

/-- A record has no findings on another line. -/
theorem onLine_findings_of_ne {r : Record} {k : Nat} (h : r.line.number ≠ k) :
    onLine k r.findings = [] := by
  simp [onLine, Record.findings, List.filter_map, h]

end Layout

/-- The diagnostics of one severity on one line, in the order of the report. -/
def Report.on (log : Report) (severity : Severity) (k : Nat) : List Diagnostic :=
  let entries := match severity with
    | .error => log.errors
    | .warning => log.warnings
  (entries.filter fun entry => decide (entry.1 = k)).map Prod.snd

namespace Layout

/-- What the report says on a line is read off the findings on that line. -/
theorem on_ofFindings (findings : List (Nat × Finding)) (severity : Severity) (k : Nat) :
    (Report.ofFindings findings).on severity k =
      (Report.select severity (onLine k findings)).map Prod.snd := by
  have hselect : (Report.select severity findings).filter (fun entry => decide (entry.1 = k)) =
      Report.select severity (onLine k findings) := by
    induction findings with
    | nil => rfl
    | cons found rest ih =>
        simp only [Report.select, onLine, List.filterMap_cons, List.filter_cons] at ih ⊢
        by_cases hseverity : found.2.severity = severity <;> by_cases hk : found.1 = k <;>
          simp [hseverity, hk, ih]
  cases severity <;> rw [← hselect] <;> rfl

/-- A missing length is an error, and reported on one line. -/
theorem select_onLine_lengthFindings (l : Layout) (severity : Severity) (k : Nat) :
    (Report.select severity (onLine k l.lengthFindings)).map Prod.snd =
      if severity = .error ∧ l.lastLine = k ∧ l.extent < 0 then
        [Diagnostic.segmentLength l.extent] else [] := by
  rw [lengthFindings]
  by_cases hextent : l.extent < 0
  · by_cases hlast : l.lastLine = k
    · cases severity <;> simp [hextent, hlast, onLine, Report.select, Diagnostic.asError]
    · simp [hextent, hlast, onLine, Report.select]
  · simp [hextent, onLine, Report.select]

namespace Without

variable {l l' : Layout} {n : Nat}

/-- On every other line the scan finds the same. -/
theorem onLine_findings (h : l.Without l' n) {k : Nat} (hk : k ≠ n) :
    onLine k l'.findings = onLine k l.findings := by
  have hrecords : onLine k (l'.records.flatMap Record.findings) =
      onLine k (l.records.flatMap Record.findings) := by
    rw [h.records, onLine, onLine, List.filter_flatMap, List.filter_flatMap]
    induction l.records with
    | nil => rfl
    | cons r rest ih =>
        by_cases hn : r.line.number = n
        · have hnone : r.findings.filter (fun found => decide (found.1 = k)) = [] :=
            onLine_findings_of_ne (hn.trans_ne hk.symm)
          rw [List.filter_cons_of_neg (by simpa using hn), ih, List.flatMap_cons, hnone,
            List.nil_append]
        · rw [List.filter_cons_of_pos (by simpa using hn), List.flatMap_cons, ih,
            List.flatMap_cons]
  rw [findings, findings, onLine_append, onLine_append, hrecords, h.lengthFindings_eq]

/-- On the line itself it finds at most that the segment has no length. -/
theorem onLine_findings_self (h : l.Without l' n) :
    onLine n l'.findings = onLine n l.lengthFindings := by
  have hrecords : onLine n (l'.records.flatMap Record.findings) = [] := by
    rw [h.records, onLine, List.filter_flatMap, List.flatMap_eq_nil_iff]
    intro r hr
    have hne : r.line.number ≠ n := by simpa using (List.mem_filter.mp hr).2
    exact onLine_findings_of_ne hne
  rw [findings, onLine_append, hrecords, h.lengthFindings_eq, List.nil_append]

/-- There is nothing to encode on the line. -/
theorem onLine_image_findings (h : l.Without l' n) : onLine n l.image.findings = [] := by
  rw [onLine, List.filter_eq_nil_iff]
  intro found hfound hn
  obtain ⟨⟨k, item⟩, hitem, d, rfl, -⟩ := Image.exists_of_mem_findings hfound
  obtain ⟨r, hr, hnumber, heffect⟩ := mem_items_iff.mp hitem
  have hrejected := h.rejected r hr (hnumber.trans (by simpa using hn))
  rw [hrejected] at heffect
  exact nomatch heffect

end Without

/-- A complaint in the report that rejects its line was made in the scan of
that line. -/
theorem exists_record_of_rejects {line : CodeLine} {d : Diagnostic}
    (hline : line ∈ programLines (splitLines source))
    (hd : (line.number, d) ∈ (Report.ofFindings (ofSource source).findings).errors)
    (hrejects : d.rejects line = true) :
    ∃ r ∈ (ofSource source).records, r.line = line ∧ d.asError ∈ r.verdict.findings := by
  have hfound : (line.number, d.asError) ∈ (ofSource source).findings := by
    obtain ⟨⟨k, severity, d'⟩, hfound, hselect⟩ := List.mem_filterMap.mp hd
    simp only [Option.ite_none_right_eq_some, Option.some.injEq, Prod.mk.injEq] at hselect
    obtain ⟨rfl, rfl, rfl⟩ := hselect
    exact hfound
  rcases List.mem_append.mp hfound with hrecord | hlength
  · obtain ⟨r, hr, hfinding⟩ := List.mem_flatMap.mp hrecord
    obtain ⟨f, hf, hpair⟩ := List.mem_map.mp hfinding
    obtain ⟨hnumber, rfl⟩ := Prod.mk.inj hpair
    refine ⟨r, hr, ?_, hf⟩
    exact eq_of_number_eq_of_mem_codeLines
      ((List.takeWhile_sublist _).mem (line_mem_programLines hr))
      ((List.takeWhile_sublist _).mem hline) hnumber
  · -- a segment without a length is no reason to reject a line
    rw [lengthFindings] at hlength
    split at hlength
    · have hdiagnostic := congrArg (fun found => found.2.diagnostic) (List.mem_singleton.mp hlength)
      rw [show d = .segmentLength _ from hdiagnostic] at hrejects
      exact nomatch hrejects
    · exact nomatch hlength

/-- **A rejected line is as if it were not there.**  Emptying a line of which
the scan reports a rejecting complaint leaves everything that the scan and the
encoding yield as it was, and the report on every other line.  On the line
itself nothing is left to report but a missing length of the segment, if that
is where it is reported. -/
theorem blank_rejected_line (source : Text) (line : CodeLine) (d : Diagnostic)
    (hline : line ∈ programLines (splitLines source))
    (hd : (line.number, d) ∈ (Report.ofFindings (ofSource source).findings).errors)
    (hrejects : d.rejects line = true) :
    let n := line.number
    let l := ofSource source
    let l' := ofSource (blankLine source n)
    (l'.items = l.items ∧ l'.addresses = l.addresses ∧ l'.names = l.names ∧
      l'.segmentName = l.segmentName ∧ l'.startAddress = l.startAddress ∧
      l'.segmentLength = l.segmentLength ∧ l'.entryPoint = l.entryPoint ∧
      l'.endLine = l.endLine ∧ l'.image.body = l.image.body ∧ l'.image.hex = l.image.hex) ∧
    (∀ severity k, k ≠ n →
      (Report.ofFindings l'.findings).on severity k = (Report.ofFindings l.findings).on severity k ∧
      l'.report.on severity k = l.report.on severity k) ∧
    (∀ severity,
      let remaining := if severity = .error ∧ l.lastLine = n ∧ l.extent < 0 then
        [Diagnostic.segmentLength l.extent] else []
      (Report.ofFindings l'.findings).on severity n = remaining ∧
      l'.report.on severity n = remaining) := by
  intro n l l'
  obtain ⟨r, hr, rfl, hfinding⟩ := exists_record_of_rejects hline hd hrejects
  have hrejected : r.verdict.effect = .rejected := by
    rw [State.verdict_of_mem_run hr] at hfinding ⊢
    exact State.effect_of_rejects hfinding hrejects
  have h : l.Without l' n := without_blankLine hr hrejected
  refine ⟨⟨h.items_eq, h.addresses_eq, congrArg State.names h.final,
    congrArg State.segmentName h.final, h.startAddress_eq, congrArg Int.toNat h.extent_eq,
    h.entryPoint_eq, h.endLine, congrArg Image.body h.image_eq, congrArg Image.hex h.image_eq⟩,
    fun severity k hk => ?_, fun severity => ?_⟩
  · constructor
    · rw [on_ofFindings, on_ofFindings, h.onLine_findings hk]
    · rw [report, report, on_ofFindings, on_ofFindings, onLine_append, onLine_append,
        h.onLine_findings hk, h.image_eq]
  · constructor
    · rw [on_ofFindings, h.onLine_findings_self, select_onLine_lengthFindings]
    · rw [report, on_ofFindings, onLine_append, h.onLine_findings_self, h.image_eq,
        h.onLine_image_findings, List.append_nil, select_onLine_lengthFindings]

/-- An origin below zero on the last line of a program whose counter ended up
below its first item: without the line, the missing length is still reported
there. -/
theorem blank_rejected_line_negative :
    let source := "S SEGMENT\nORG 10\nMUL AX\nORG 0\nORG -1".toList
    let l := ofSource source
    let l' := ofSource (blankLine source 5)
    l.report.on .error 5 = [.negativeAddress (-1), .segmentLength (-10)] ∧
    l'.items = l.items ∧ l'.names = l.names ∧ l'.image.body = l.image.body ∧
    l'.report.on .error 3 = l.report.on .error 3 ∧
    l'.report.on .error 5 = [.segmentLength (-10)] ∧ l'.report.on .warning 5 = [] := by
  intro source l l'
  obtain ⟨⟨hitems, -, hnames, -, -, -, -, -, hbody, -⟩, hothers, hself⟩ :=
    blank_rejected_line source ⟨5, "ORG".toList, ["-1".toList]⟩ (.negativeAddress (-1))
      (List.mem_of_getElem? (i := 4) rfl) (List.mem_of_getElem? (i := 0) rfl) rfl
  exact ⟨rfl, hitems, hnames, hbody, (hothers .error 3 (by decide)).2, (hself .error).2,
    (hself .warning).2⟩

end Layout

end SegmentAssembler
