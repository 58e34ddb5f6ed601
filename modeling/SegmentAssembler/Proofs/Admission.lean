import SegmentAssembler.Scan.Run

/-!
# What a line can do

A verdict grants an effect only after a number of checks.  `State.Admits`
writes down, once for every kind of effect, all that has been checked when a
line gets it: the phase of the segment, what the words of the line say, that a
declared name is new, that the operands stand in the opcode table and that the
counter stays below the top.

* `judge_admits` — a verdict grants admitted effects only;
* `admits_of_mem_run` — so the effect of every record of a run is admitted in
  the state before it;
* `counter_le_top_of_mem_run` — the counter never passes the top address.

Whatever else is proved of runs goes back to `Admits` and never opens the
verdict again.
-/

namespace SegmentAssembler

/-- The line begins with a directive that moves the address counter. -/
def CodeLine.movesCounter (line : CodeLine) : Bool :=
  Directive.ofName? line.head == some .org || Directive.ofName? line.head == some .offset

/-! ### What the words of a line say -/

namespace Statement

/-- A name with what follows it never moves the counter. -/
private theorem ofLabelled_ne_move (head : Text) (rest args : List Text) :
    ofLabelled head rest ≠ .org args ∧ ofLabelled head rest ≠ .offset args := by
  unfold ofLabelled
  cases labelName? head with
  | some id => exact ⟨nofun, nofun⟩
  | none =>
      cases rest with
      | nil => exact ⟨nofun, nofun⟩
      | cons word rest =>
          simp only [ofNamed]
          split <;> exact ⟨nofun, nofun⟩

/-- Only the directive itself sets the counter. -/
theorem directive_of_ofWords_org {head : Text} {rest args : List Text}
    (h : ofWords head rest = .org args) : Directive.ofName? head = some .org := by
  unfold ofWords at h
  split at h
  · exact nomatch h
  · split at h
    case h_1 hdirective => exact hdirective
    case h_7 => exact absurd h (ofLabelled_ne_move head rest args).1
    all_goals exact nomatch h

/-- Only the directive itself shifts the counter. -/
theorem directive_of_ofWords_offset {head : Text} {rest args : List Text}
    (h : ofWords head rest = .offset args) : Directive.ofName? head = some .offset := by
  unfold ofWords at h
  split at h
  · exact nomatch h
  · split at h
    case h_2 hdirective => exact hdirective
    case h_7 => exact absurd h (ofLabelled_ne_move head rest args).2
    all_goals exact nomatch h

/-- No directive is a mnemonic. -/
theorem mnemonic_none_of_directive {head : Text} {d : Directive}
    (h : Directive.ofName? head = some d) : Mnemonic.ofName? head = none := by
  rw [Directive.ofName?_eq_some_iff] at h
  unfold Mnemonic.ofName?
  rw [h]
  cases d <;> decide

/-- A line that begins with a moving directive says so, whatever follows. -/
theorem ofWords_of_movesCounter {line : CodeLine} (h : line.movesCounter = true) :
    ofWords line.head line.rest = .org line.rest ∨
      ofWords line.head line.rest = .offset line.rest := by
  simp only [CodeLine.movesCounter, Bool.or_eq_true, beq_iff_eq] at h
  rcases h with hdirective | hdirective
  · left
    simp [ofWords, mnemonic_none_of_directive hdirective, hdirective]
  · right
    simp [ofWords, mnemonic_none_of_directive hdirective, hdirective]

end Statement

/-! ### Admitted effects -/

namespace State

/-- The effects that a line may have in a state, each with all that was
checked before it was granted. -/
inductive Admits (s : State) (line : CodeLine) : Effect → Prop
  | rejected : Admits s line .rejected
  | opened {name : Text} (hphase : s.phase = .pending)
      (hname : name = s.segmentName ∨
        isName line.head = true ∧ isKeyword line.head = false ∧ name = Text.upper line.head) :
      Admits s line (.opened name)
  | closed (hphase : s.phase = .opened) : Admits s line .closed
  | org {word : Text} {rest : List Text} {v : Int} (hphase : s.phase = .opened)
      (hwords : Statement.ofWords line.head line.rest = .org (word :: rest))
      (hnumber : directiveNumber word = .ok v) (hlow : 0 ≤ v) :
      Admits s line (.moved v.toNat)
  | offset {word : Text} {rest : List Text} {v : Int} (hphase : s.phase = .opened)
      (hwords : Statement.ofWords line.head line.rest = .offset (word :: rest))
      (hnumber : directiveNumber word = .ok v)
      (hlow : 0 ≤ s.counter + v) (htop : s.counter + v ≤ topAddress) :
      Admits s line (.moved (s.counter + v).toNat)
  | labelled {id : Text} {rest : List Text} (hphase : s.phase = .opened)
      (hwords : Statement.ofWords line.head line.rest = .label id rest)
      (hname : isName id = true) (hfree : s.names.contains id = false) :
      Admits s line (.labelled id)
  | defined {id : Text} {type : DataType} {words : List Text} (hphase : s.phase = .opened)
      (hwords : Statement.ofWords line.head line.rest = .define id type words)
      (hname : isName id = true) (hfree : s.names.contains id = false)
      (htop : s.counter + type.width * (definedValues type words).length ≤ topAddress) :
      Admits s line (.defined id type (definedValues type words))
  | collected {m : Mnemonic} {words : List Text} {template : Template}
      {op1 op2 : Option Operand} (hphase : s.phase = .opened)
      (hwords : Statement.ofWords line.head line.rest = .instruction m words)
      (hop1 : op1 = asTarget m (words[0]?.map Operand.ofWord) op2)
      (hop2 : op2 = words[1]?.map Operand.ofWord)
      (hrow : Template.lookup? m (op1.map Operand.kind) (op2.map Operand.kind) = some template)
      (htop : s.counter + Instruction.lengthOf op1 op2 ≤ topAddress) :
      Admits s line
        (.collected m ⟨template, op1, op2, s.counter, Instruction.lengthOf op1 op2⟩)

/-! ### Verdicts grant admitted effects -/

section Verdicts

variable {s : State} {line : CodeLine}

/-- What may be done only inside the segment is done only inside it. -/
private theorem inside_admits {v : Verdict}
    (h : s.phase = .opened → s.Admits line v.effect) : s.Admits line (s.inside v).effect := by
  unfold inside
  by_cases hopen : s.isOpen = true
  · rw [if_pos hopen]
    exact h (by simpa [isOpen] using hopen)
  · rw [if_neg hopen]
    exact .rejected

/-- Before the segment a line opens it, under its own name or the default one, or is
rejected. -/
private theorem judgeOpening_admits (hphase : s.phase = .pending) :
    s.Admits line (s.judgeOpening line.head line.rest).effect := by
  cases hrest : line.rest with
  | nil => exact .rejected
  | cons word rest =>
      simp only [judgeOpening]
      split
      · split
        · rename_i hvalid
          simp only [Bool.and_eq_true, Bool.not_eq_true'] at hvalid
          exact .opened hphase (Or.inr ⟨hvalid.1, hvalid.2, rfl⟩)
        · exact .opened hphase (Or.inl rfl)
      · exact .rejected

/-- A closing line has an effect only in the open segment. -/
private theorem judgeClosing_admits (name : Option Text) (rest : List Text) :
    s.Admits line (s.judgeClosing name rest).effect := by
  unfold judgeClosing
  by_cases hopen : s.isOpen = true
  · rw [if_pos hopen]
    exact .closed (by simpa [isOpen] using hopen)
  · rw [if_neg hopen]
    exact .rejected

/-- An origin moves the counter to an address, or is rejected. -/
private theorem judgeOrg_admits {words : List Text} (hphase : s.phase = .opened)
    (hwords : Statement.ofWords line.head line.rest = .org words) :
    s.Admits line (judgeOrg words).effect := by
  cases words with
  | nil => exact .rejected
  | cons word rest =>
      simp only [judgeOrg, Verdict.effect_after]
      cases hnumber : directiveNumber word with
      | error d => exact .rejected
      | ok v =>
          by_cases hlow : 0 ≤ v
          · simp only [if_pos hlow]
            exact .org hphase hwords hnumber hlow
          · simp only [if_neg hlow]
            exact .rejected

/-- An offset moves the counter to an address, or is rejected. -/
private theorem judgeOffset_admits {words : List Text} (hphase : s.phase = .opened)
    (hwords : Statement.ofWords line.head line.rest = .offset words) :
    s.Admits line (s.judgeOffset words).effect := by
  cases words with
  | nil => exact .rejected
  | cons word rest =>
      simp only [judgeOffset, Verdict.effect_after]
      cases hnumber : directiveNumber word with
      | error d => exact .rejected
      | ok v =>
          simp only
          split
          · exact .rejected
          · split
            · exact .rejected
            · -- past the limit for moves the counter is moved all the same
              have hmoved : s.Admits line (.moved (s.counter + v).toNat) :=
                .offset hphase hwords hnumber (by omega) (by omega)
              split <;> exact hmoved

/-- A label declares a name that is free, or is rejected. -/
private theorem judgeLabel_admits {id : Text} {rest : List Text} (hphase : s.phase = .opened)
    (hwords : Statement.ofWords line.head line.rest = .label id rest) :
    s.Admits line (s.judgeLabel id rest).effect := by
  unfold judgeLabel
  split
  · exact .rejected
  · rename_i hname
    split
    · exact .rejected
    · rename_i hfree
      exact .labelled hphase hwords (by simpa using hname) (by simpa using hfree)

/-- A definition declares a name that is free and has room for its values, or is
rejected. -/
private theorem judgeDefinition_admits {id : Text} {type : DataType} {words : List Text}
    (hphase : s.phase = .opened)
    (hwords : Statement.ofWords line.head line.rest = .define id type words) :
    s.Admits line (s.judgeDefinition id type words).effect := by
  unfold judgeDefinition
  split
  · exact .rejected
  · rename_i hname
    split
    · exact .rejected
    · rename_i hfree
      simp only [Verdict.effect_after]
      split
      · rename_i htop
        exact .defined hphase hwords (by simpa using hname) (by simpa using hfree) htop
      · exact .rejected

/-- An instruction has a row in the opcode table and room for its code, or is rejected.
-/
private theorem judgeInstruction_admits {m : Mnemonic} {words : List Text}
    (hphase : s.phase = .opened)
    (hwords : Statement.ofWords line.head line.rest = .instruction m words) :
    s.Admits line (s.judgeInstruction m words).effect := by
  simp only [judgeInstruction, Verdict.effect_after]
  split
  · exact .rejected
  · rename_i template hrow
    split
    · rename_i htop
      exact .collected hphase hwords rfl rfl hrow htop
    · exact .rejected

/-- **Verdicts grant admitted effects only.**  What a line does to the scan has
passed every check that its kind of line is subject to. -/
theorem judge_admits (s : State) (line : CodeLine) :
    s.Admits line (s.judge line).effect := by
  have hlater : s.Admits line
      (s.judgeStatement (.ofWords line.head line.rest)).effect := by
    cases hwords : Statement.ofWords line.head line.rest with
    | instruction m words => exact inside_admits fun h => judgeInstruction_admits h hwords
    | org words => exact inside_admits fun h => judgeOrg_admits h hwords
    | offset words => exact inside_admits fun h => judgeOffset_admits h hwords
    | close name rest => exact judgeClosing_admits name rest
    | label id rest => exact inside_admits fun h => judgeLabel_admits h hwords
    | define id type words => exact inside_admits fun h => judgeDefinition_admits h hwords
    | misplaced directive => exact .rejected
    | unknown => exact .rejected
  unfold judge
  split
  · rename_i hphase
    exact judgeOpening_admits hphase
  · exact hlater

end Verdicts

/-! ### Admitted effects and the counter -/

section Effects

variable {s : State} {line : CodeLine} {e : Effect}

/-- A number that a directive accepts is a word value. -/
theorem contains_of_directiveNumber {word : Text} {v : Int}
    (h : directiveNumber word = .ok v) : DataType.word.contains v = true := by
  unfold directiveNumber at h
  split at h
  · exact nomatch h
  · split at h
    · rename_i hcontains
      cases h
      exact hcontains
    · exact nomatch h

/-- **The counter stays below the top.** -/
theorem Admits.counter_le_top (h : s.Admits line e) (hs : s.counter ≤ topAddress) :
    (s.apply e).counter ≤ topAddress := by
  rw [counter_apply]
  cases h with
  | org hphase hwords hnumber hlow =>
      have hrange := (DataType.contains_iff _ _).mp (contains_of_directiveNumber hnumber)
      simp only [counterAfter, topAddress, DataType.modulus] at *
      omega
  | offset hphase hwords hnumber hlow htop =>
      simp only [counterAfter]
      omega
  | defined hphase hwords hname hfree htop => exact htop
  | collected hphase hwords hop1 hop2 hrow htop => exact htop
  | _ => exact hs

/-- A line that moves the counter contributes no item. -/
theorem Admits.item?_eq_none (h : s.Admits line e) (hline : line.movesCounter = true) :
    e.item? = none := by
  have hmoves := Statement.ofWords_of_movesCounter hline
  cases h with
  | defined hphase hwords hname hfree htop =>
      rw [hwords] at hmoves
      rcases hmoves with h | h <;> exact nomatch h
  | collected hphase hwords hop1 hop2 hrow htop =>
      rw [hwords] at hmoves
      rcases hmoves with h | h <;> exact nomatch h
  | _ => rfl

/-- Apart from the lines that move it, the counter advances by what the line
contributes. -/
theorem Admits.counter_eq_add_advance (h : s.Admits line e)
    (hline : line.movesCounter = false) :
    (s.apply e).counter = s.counter + e.advance := by
  rw [counter_apply]
  cases h with
  | org hphase hwords hnumber hlow =>
      have hdirective := Statement.directive_of_ofWords_org hwords
      simp [CodeLine.movesCounter, hdirective] at hline
  | offset hphase hwords hnumber hlow htop =>
      have hdirective := Statement.directive_of_ofWords_offset hwords
      simp [CodeLine.movesCounter, hdirective] at hline
  | _ => rfl

end Effects

/-! ### Records of a run -/

/-- The record of a line is the verdict in the state that the line met. -/
theorem verdict_of_mem_run {s : State} {lines : List CodeLine} {r : Record}
    (hr : r ∈ s.run lines) : r.verdict = r.before.judge r.line := by
  induction lines generalizing s with
  | nil => exact nomatch hr
  | cons line rest ih =>
      rw [run_cons] at hr
      rcases List.mem_cons.mp hr with rfl | hr
      · rfl
      · exact ih hr

/-- The effect of a record is admitted in the state before it. -/
theorem admits_of_mem_run {s : State} {lines : List CodeLine} {r : Record}
    (hr : r ∈ s.run lines) : r.before.Admits r.line r.verdict.effect := by
  rw [verdict_of_mem_run hr]
  exact judge_admits r.before r.line

/-- **No line of a run finds the counter past the top.** -/
theorem counter_le_top_of_mem_run {s : State} {lines : List CodeLine}
    (hs : s.counter ≤ topAddress) {r : Record} (hr : r ∈ s.run lines) :
    r.before.counter ≤ topAddress := by
  induction lines generalizing s with
  | nil => exact nomatch hr
  | cons line rest ih =>
      rw [run_cons] at hr
      rcases List.mem_cons.mp hr with rfl | hr
      · exact hs
      · exact ih ((judge_admits s line).counter_le_top hs) hr

/-- Nor does a run leave it there. -/
theorem counter_finish_le_top {s : State} (hs : s.counter ≤ topAddress)
    (lines : List CodeLine) : (s.finish (s.run lines)).counter ≤ topAddress := by
  induction lines generalizing s with
  | nil => exact hs
  | cons line rest ih =>
      rw [run_cons, finish_cons]
      exact ih ((judge_admits s line).counter_le_top hs)

end State

end SegmentAssembler
