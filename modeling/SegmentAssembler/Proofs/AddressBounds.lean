import SegmentAssembler.Proofs.AddressAccounting
import SegmentAssembler.Proofs.CleanVerdicts
import SegmentAssembler.Proofs.DataRows

/-!
# Addresses never wrap

A line that moves or advances the counter aims at an address: the number that
`ORG` is given, the counter moved by the number that `OFFSET` is given, or the
counter behind the bytes of an item.  The aim is an integer without bounds, and
what the line does depends on where it lies:

    below 0      0 … 65535      above 65535
    negative     reached        overflow

An aim that is reached is the next counter exactly.  The other two are reported
and leave no trace besides.  So no counter is past the top, and all sums and
differences of addresses that are formed later stay far inside 32 bits.

* `State.outcome_of_aims` — the three ways of an aim;
* `State.counter_of_not_aims` — without an aim the counter stays;
* `Layout.ignored_of_rejected` — a rejected line leaves no trace;
* `Layout.rowAddress_le_top` — no row of the listing is past the top;
* `addresses_never_wrap` — the whole.
-/

namespace SegmentAssembler

namespace State

/-! ### Aims -/

/-- The address to which a line would take the counter, everything else about
the line being in order. -/
inductive Aims (s : State) (line : CodeLine) : Int → Prop
  | org {word : Text} {rest : List Text} {v : Int} (hphase : s.phase = .opened)
      (hwords : Statement.ofWords line.head line.rest = .org (word :: rest))
      (hnumber : directiveNumber word = .ok v) : Aims s line v
  | offset {word : Text} {rest : List Text} {v : Int} (hphase : s.phase = .opened)
      (hwords : Statement.ofWords line.head line.rest = .offset (word :: rest))
      (hnumber : directiveNumber word = .ok v) : Aims s line (s.counter + v)
  | data {id : Text} {type : DataType} {words : List Text} (hphase : s.phase = .opened)
      (hwords : Statement.ofWords line.head line.rest = .define id type words)
      (hname : isName id = true) (hfree : s.names.contains id = false) :
      Aims s line (s.counter + type.width * max 1 words.length : Nat)
  | code {m : Mnemonic} {words : List Text} {template : Template} {op1 op2 : Option Operand}
      (hphase : s.phase = .opened)
      (hwords : Statement.ofWords line.head line.rest = .instruction m words)
      (hop1 : op1 = asTarget m (words[0]?.map Operand.ofWord) op2)
      (hop2 : op2 = words[1]?.map Operand.ofWord)
      (hrow : Template.lookup? m (op1.map Operand.kind) (op2.map Operand.kind) = some template) :
      Aims s line (s.counter + Instruction.lengthOf op1 op2 : Nat)

/-- What a verdict makes of an aim. -/
inductive Outcome (s : State) (t : Int) : Verdict → Prop
  | negative (front : List Finding) (hlow : t < 0) :
      Outcome s t ⟨front ++ [(Diagnostic.negativeAddress t).asError], .rejected⟩
  | overflow (front : List Finding) (htop : topAddress < t) :
      Outcome s t ⟨front ++ [Diagnostic.addressOverflow.asError], .rejected⟩
  | reached {findings : List Finding} {e : Effect} (hlow : 0 ≤ t) (htop : t ≤ topAddress)
      (hcounter : (s.counterAfter e : Int) = t) : Outcome s t ⟨findings, e⟩

section Steps

variable {s : State} {line : CodeLine} {t : Int}

/-- In the open segment the words of a line decide, and no verdict is withheld. -/
theorem judge_inside (line : CodeLine) (hphase : s.phase = .opened) :
    s.judge line = s.judgeStatement (.ofWords line.head line.rest) ∧ ∀ v, s.inside v = v :=
  ⟨judge_of_ne_pending (by rw [hphase]; decide) line, inside_of_opened hphase⟩

/-- An origin aims at its number. -/
theorem outcome_judgeOrg {word : Text} (hnumber : directiveNumber word = .ok t)
    (rest : List Text) : s.Outcome t (judgeOrg (word :: rest)) := by
  have hrange := (DataType.contains_iff _ _).mp (contains_of_directiveNumber hnumber)
  simp only [DataType.modulus] at hrange
  simp only [judgeOrg, hnumber]
  by_cases hlow : 0 ≤ t
  · rw [if_pos hlow]
    refine .reached hlow (by simp only [topAddress]; omega) ?_
    simp only [Verdict.accept, counterAfter]
    omega
  · rw [if_neg hlow]
    exact .negative _ (by omega)

/-- An offset aims at the counter and its number together. -/
theorem outcome_judgeOffset {word : Text} {v : Int} (hnumber : directiveNumber word = .ok v)
    (rest : List Text) : s.Outcome (s.counter + v) (s.judgeOffset (word :: rest)) := by
  simp only [judgeOffset, hnumber]
  by_cases hlow : (s.counter : Int) + v < 0
  · rw [if_pos hlow]
    exact .negative _ hlow
  · rw [if_neg hlow]
    by_cases htop : (topAddress : Int) < s.counter + v
    · rw [if_pos htop]
      exact .overflow _ htop
    · rw [if_neg htop]
      -- past the limit for moves there is an error, and the counter moves all the same
      split <;>
      · refine .reached (by omega) (by omega) ?_
        simp only [Verdict.accept, counterAfter]
        omega

/-- An item advances the counter by its size, if there is room for it. -/
theorem outcome_advance {e : Effect} {size : Nat} (he : s.counterAfter e = s.counter + size)
    (front : List Finding) :
    s.Outcome (s.counter + size : Nat)
      (.after front (if s.counter + size ≤ topAddress then .accept e
        else .reject .addressOverflow)) := by
  by_cases htop : s.counter + size ≤ topAddress
  · rw [if_pos htop]
    exact .reached (by omega) (by omega) (by rw [Verdict.accept, he])
  · rw [if_neg htop]
    exact .overflow _ (by omega)

/-- **The three ways of an aim.** -/
theorem outcome_of_aims (h : s.Aims line t) : s.Outcome t (s.judge line) := by
  have hopened : s.phase = .opened := by cases h <;> assumption
  obtain ⟨hjudge, hinside⟩ := judge_inside line hopened
  rw [hjudge]
  cases h with
  | org _ hwords hnumber =>
      rw [hwords, judgeStatement, hinside]
      exact outcome_judgeOrg hnumber _
  | offset _ hwords hnumber =>
      rw [hwords, judgeStatement, hinside]
      exact outcome_judgeOffset hnumber _
  | @data id type words _ hwords hname hfree =>
      rw [hwords, judgeStatement, hinside, judgeDefinition, hname, hfree,
        ← length_definedValues type words]
      exact outcome_advance rfl _
  | code _ hwords hop1 hop2 hrow =>
      rw [hwords, judgeStatement, hinside]
      simp only [judgeInstruction, ← hop2, ← hop1, hrow]
      exact outcome_advance rfl _

namespace Outcome

variable {v : Verdict}

/-- An aim within the addresses is reached. -/
theorem counter_eq (h : s.Outcome t v) (hlow : 0 ≤ t) (htop : t ≤ topAddress) :
    ((s.apply v.effect).counter : Int) = t := by
  rw [counter_apply]
  cases h with
  | negative _ hlow' => omega
  | overflow _ htop' => omega
  | reached _ _ hcounter => exact hcounter

/-- An aim past the top is an overflow, and the line is rejected. -/
theorem rejects_above (h : s.Outcome t v) (htop : topAddress < t) :
    v.effect = .rejected ∧ Diagnostic.addressOverflow.asError ∈ v.findings := by
  cases h with
  | negative _ hlow => omega
  | overflow front _ => exact ⟨rfl, List.mem_append_right front (List.mem_singleton_self _)⟩
  | reached _ htop' _ => omega

/-- An aim below zero is reported with its value, and the line is rejected. -/
theorem rejects_below (h : s.Outcome t v) (hlow : t < 0) :
    v.effect = .rejected ∧ (Diagnostic.negativeAddress t).asError ∈ v.findings := by
  cases h with
  | negative front _ => exact ⟨rfl, List.mem_append_right front (List.mem_singleton_self _)⟩
  | overflow _ htop => omega
  | reached hlow' _ _ => omega

end Outcome

/-- Without an aim the counter stays. -/
theorem counter_of_not_aims (h : ∀ t, ¬s.Aims line t) :
    (s.apply (s.judge line).effect).counter = s.counter := by
  have hadmits := s.judge_admits line
  rw [counter_apply]
  generalize (s.judge line).effect = e at hadmits ⊢
  cases hadmits with
  | org hphase hwords hnumber => exact absurd (.org hphase hwords hnumber) (h _)
  | offset hphase hwords hnumber => exact absurd (.offset hphase hwords hnumber) (h _)
  | defined hphase hwords hname hfree => exact absurd (.data hphase hwords hname hfree) (h _)
  | collected hphase hwords hop1 hop2 hrow =>
      exact absurd (.code hphase hwords hop1 hop2 hrow) (h _)
  | rejected | opened | closed | labelled => rfl

end Steps

end State

/-! ### Opcodes -/

/-- The code with the direction bit alone. -/
def Template.directed (t : Template) : Nat :=
  t.direction.elim t.code.toNat fun d => t.code.toNat * 2 ||| d.toNat

/-- The direction bit and the width bit add one place each to the eight of the code. -/
theorem Template.opcode_lt (t : Template) : t.directed < 512 ∧ t.opcode < 1024 := by
  have hcode := t.code.toNat_lt
  have hdirected : t.directed < 512 := by
    unfold directed
    cases t.direction with
    | none => exact Nat.lt_trans hcode (by decide)
    | some d =>
        have hd := d.toNat_lt
        exact Nat.or_lt_two_pow (n := 9) (by omega) (by omega)
  have hopcode : t.opcode = if t.wide then t.directed * 2 + 1 else t.directed := by
    unfold opcode directed
    cases t.direction <;> rfl
  refine ⟨hdirected, ?_⟩
  rw [hopcode]
  split <;> omega

namespace Layout

variable {source : Text}

/-! ### Lines -/

/-- The line has no effect: the state stays, and there is no item and no address
under its number. -/
structure Ignored (l : Layout) (r : Record) : Prop where
  next : r.next = r.before
  item : ∀ item, (r.line.number, item) ∉ l.items
  address : l.addressAt? r.line.number = none

/-- **A rejected line leaves no trace.** -/
theorem ignored_of_rejected {r : Record} (hr : r ∈ (ofSource source).records)
    (h : r.verdict.effect = .rejected) : (ofSource source).Ignored r where
  next := by rw [Record.next, h, State.apply_rejected]
  item item hitem := by
    obtain ⟨r', hr', hnumber, heffect⟩ := mem_items_iff.mp hitem
    rw [eq_of_number_eq hr' hr hnumber, h] at heffect
    cases heffect
  address := by
    rw [addressAt?, List.lookup_eq_none_iff]
    intro entry hentry
    obtain ⟨r', hr', haddress⟩ := List.mem_filterMap.mp hentry
    have hnumber := number_of_address? haddress
    rw [bne_iff_ne]
    intro heq
    rw [eq_of_number_eq hr' hr (by omega), Record.address?, h] at haddress
    cases haddress

/-- What a line of the program aims at decides its verdict. -/
theorem outcome_of_mem_records {r : Record} (hr : r ∈ (ofSource source).records) {t : Int}
    (h : r.before.Aims r.line t) : r.before.Outcome t r.verdict := by
  have hverdict : r.verdict = r.before.judge r.line := State.verdict_of_mem_run hr
  rw [hverdict]
  exact State.outcome_of_aims h

/-- The counter stays, or it goes exactly where the line aims. -/
theorem counter_next {r : Record} (hr : r ∈ (ofSource source).records) :
    r.next.counter = r.before.counter ∨
      ∃ t, r.before.Aims r.line t ∧ (r.next.counter : Int) = t := by
  by_cases haims : ∃ t, r.before.Aims r.line t
  · obtain ⟨t, ht⟩ := haims
    have houtcome := outcome_of_mem_records hr ht
    rw [Record.next, State.counter_apply]
    generalize r.verdict = v at houtcome ⊢
    cases houtcome with
    | negative | overflow => exact .inl rfl
    | reached _ _ hcounter => exact .inr ⟨t, ht, hcounter⟩
  · have hverdict : r.verdict = r.before.judge r.line := State.verdict_of_mem_run hr
    left
    rw [Record.next, hverdict]
    exact State.counter_of_not_aims (not_exists.mp haims)

/-- An item takes the counter to its end. -/
theorem counter_next_of_item {r : Record} {item : Item}
    (h : r.verdict.effect.item? = some item) :
    r.next.counter = r.before.counter + item.size := by
  have hadvance : r.verdict.effect.advance = item.size := by
    rw [Effect.advance, h, Option.map_some, Option.getD_some]
  rw [← hadvance, Record.next, State.counter_apply]
  cases heffect : r.verdict.effect with
  | moved address =>
      rw [heffect] at h
      cases h
  | _ => rfl

/-- No line takes the counter past the top. -/
theorem counter_next_le_top {r : Record} (hr : r ∈ (ofSource source).records) :
    r.next.counter ≤ topAddress :=
  (admits_of_mem_records hr).counter_le_top (counter_le_top_of_mem_records hr)

/-- **No item reaches past the top.** -/
theorem address_add_size_le {n : Nat} {item : Item} (h : (n, item) ∈ (ofSource source).items) :
    ∃ a, (ofSource source).addressAt? n = some a ∧ a + item.size ≤ topAddress := by
  obtain ⟨r, hr, rfl, hitem⟩ := mem_items_iff.mp h
  have htop := counter_next_le_top hr
  rw [counter_next_of_item hitem] at htop
  exact ⟨r.before.counter, addressAt?_of_item hr hitem, htop⟩

/-- **No row of the listing is past the top.** -/
theorem rowAddress_le_top {n : Nat} {text : CodeText}
    (h : (ofSource source).image.hex.lookup n = some text) :
    ∃ a, (ofSource source).addressAt? n = some a ∧
      ∀ i < text.rows.length, a + text.step * i ≤ topAddress := by
  rw [image, Image.lookup_hex (pairwise_items source), Option.bind_eq_some_iff] at h
  obtain ⟨item, hlookup, htext⟩ := h
  have hitem := (Ascending.lookup_eq_some_iff (pairwise_items source)).mp hlookup
  obtain ⟨a, haddress, htop⟩ := address_add_size_le hitem
  obtain ⟨code, hcode, rfl⟩ := Item.hex?_eq_some_iff.mp htext
  refine ⟨a, haddress, fun i hi => ?_⟩
  cases item with
  | data d =>
      cases hcode
      have hle := rowAddress_le htop hi
      rwa [Nat.mul_comm d.type.width] at hle
  | instruction instr =>
      have hstep : code.hex.step = 0 := by rw [Instruction.hex_of_encode hcode, CodeText.single]
      rw [hstep, Nat.zero_mul]
      omega

/-! ### Differences -/

/-- The difference of two addresses. -/
theorem difference_bounds {a b : Nat} (ha : a ≤ topAddress) (hb : b ≤ topAddress) :
    -131072 ≤ (a : Int) - b ∧ (a : Int) - b ≤ 131071 := by
  simp only [topAddress] at ha hb
  omega

/-- A program does not take the counter past the top. -/
theorem counter_final_le_top (source : Text) : (ofSource source).final.counter ≤ topAddress :=
  State.counter_finish_le_top (Nat.zero_le _) _

/-- **A segment that ends below its start** is reported with the difference. -/
theorem mem_errors_of_extent {l : Layout} (h : l.extent < 0) :
    (l.lastLine, .segmentLength l.extent) ∈ l.report.errors := by
  refine Report.mem_select_iff.mpr ⟨(Diagnostic.segmentLength l.extent).asError, ?_, rfl, rfl⟩
  refine List.mem_append_left _ (List.mem_append_right _ ?_)
  rw [lengthFindings, if_pos h]
  exact List.mem_singleton_self _

/-- A single error withholds the object code. -/
theorem objectBytes_of_mem_errors {l : Layout} {entry : LineRecord}
    (h : entry ∈ l.report.errors) : (Assembly.ofLayout l).objectBytes = none := by
  have herrors : l.report.hasErrors = true := by
    rw [Report.hasErrors, Bool.not_eq_true', List.isEmpty_eq_false_iff]
    exact List.ne_nil_of_mem h
  rw [Assembly.ofLayout, herrors, if_pos rfl]

/-! ### The whole -/

/-- All that is reckoned with addresses, in the scan, in encoding and in the
listing. -/
structure Unwrapped (l : Layout) : Prop where
  /-- An item ends at or below the top. -/
  items : ∀ n item, (n, item) ∈ l.items →
    ∃ a, l.addressAt? n = some a ∧ a + item.size ≤ topAddress
  /-- Before and after every line the counter is an address. -/
  counters : l.final.counter ≤ topAddress ∧
    ∀ r ∈ l.records, r.before.counter ≤ topAddress ∧ r.next.counter ≤ topAddress
  /-- The counter stays or goes exactly where the line aims. -/
  steps : ∀ r ∈ l.records, r.next.counter = r.before.counter ∨
    ∃ t, r.before.Aims r.line t ∧ (r.next.counter : Int) = t
  /-- Behind an item it is at the end of the item. -/
  advance : ∀ r ∈ l.records, ∀ item, r.verdict.effect.item? = some item →
    r.next.counter = r.before.counter + item.size
  reached : ∀ r ∈ l.records, ∀ t, r.before.Aims r.line t → 0 ≤ t → t ≤ topAddress →
    (r.next.counter : Int) = t
  overflow : ∀ r ∈ l.records, ∀ t, r.before.Aims r.line t → topAddress < t →
    (r.line.number, .addressOverflow) ∈ l.report.errors ∧ l.Ignored r
  negative : ∀ r ∈ l.records, ∀ t, r.before.Aims r.line t → t < 0 →
    (r.line.number, .negativeAddress t) ∈ l.report.errors ∧ l.Ignored r
  offset : ∀ r ∈ l.records, ∀ word v, directiveNumber word = .ok v →
    -131072 ≤ r.before.counter + v ∧ r.before.counter + v ≤ 131071
  extent : -131072 ≤ l.extent ∧ l.extent ≤ 131071
  displacement : ∀ n i name symbol, (n, .instruction i) ∈ l.items →
    l.names.get? name = some symbol →
      -131072 ≤ (symbol.address : Int) - i.address ∧ (symbol.address : Int) - i.address ≤ 131071
  rows : ∀ n text, l.image.hex.lookup n = some text →
    ∃ a, l.addressAt? n = some a ∧ ∀ i < text.rows.length, a + text.step * i ≤ topAddress
  /-- A last counter below the first item is reported with the difference, and
  there is no object code then. -/
  length : ∀ first a, l.items[0]? = some first → l.addressAt? first.1 = some a →
    l.final.counter < a →
      (l.lastLine, .segmentLength ((l.final.counter : Int) - a)) ∈ l.report.errors ∧
        (Assembly.ofLayout l).objectBytes = none

/-- No address and no difference of addresses leaves its range on any line of a
program. -/
theorem unwrapped_ofSource (source : Text) : (ofSource source).Unwrapped where
  items n item h := address_add_size_le h
  counters := ⟨counter_final_le_top source, fun r hr =>
    ⟨counter_le_top_of_mem_records hr, counter_next_le_top hr⟩⟩
  steps r hr := counter_next hr
  advance r _ item h := counter_next_of_item h
  reached r hr t haims hlow htop := (outcome_of_mem_records hr haims).counter_eq hlow htop
  overflow r hr t haims htop := by
    obtain ⟨hrejected, hfound⟩ := (outcome_of_mem_records hr haims).rejects_above htop
    exact ⟨mem_errors_of_record hr hfound, ignored_of_rejected hr hrejected⟩
  negative r hr t haims hlow := by
    obtain ⟨hrejected, hfound⟩ := (outcome_of_mem_records hr haims).rejects_below hlow
    exact ⟨mem_errors_of_record hr hfound, ignored_of_rejected hr hrejected⟩
  offset r hr word v hnumber := by
    have hcounter := counter_le_top_of_mem_records hr
    have hrange := (DataType.contains_iff _ _).mp (State.contains_of_directiveNumber hnumber)
    simp only [topAddress, DataType.modulus] at hcounter hrange
    omega
  extent := difference_bounds (counter_final_le_top source) (firstAddress_le_top source _)
  displacement n i name symbol hitem hname := by
    obtain ⟨r, hr, m, -, -, -, haddress⟩ := formed_of_mem_items hitem
    rw [haddress]
    exact difference_bounds (address_le_top_of_get? hname) (counter_le_top_of_mem_records hr)
  rows n text h := rowAddress_le_top h
  length first a hfirst haddress hshort := by
    have hstart := addressAt?_first hfirst
    have hsame : a = (ofSource source).startAddress :=
      Option.some.inj (haddress.symm.trans hstart)
    subst hsame
    have hextent : (ofSource source).extent < 0 := by
      rw [Layout.extent]
      omega
    have herror := mem_errors_of_extent hextent
    exact ⟨herror, objectBytes_of_mem_errors herror⟩

/-- **Addresses never wrap**, whatever the source and the template. -/
theorem addresses_never_wrap (source : Text) :
    (ofSource source).Unwrapped ∧
      ∀ t : Template, t.directed < 512 ∧ t.opcode < 1024 :=
  ⟨unwrapped_ofSource source, Template.opcode_lt⟩

/-- Two bytes below the top there is no room for two more. -/
theorem addresses_never_wrap_at_top :
    let l := ofSource "S SEGMENT\nORG 65534\nA DW 1\nS ENDS".toList
    ∃ r ∈ l.records, r.before.Aims r.line 65536 ∧ (3, .addressOverflow) ∈ l.report.errors ∧
      l.Ignored r := by
  intro l
  have hunwrapped := (addresses_never_wrap "S SEGMENT\nORG 65534\nA DW 1\nS ENDS".toList).1
  let s : State := { phase := .opened, segmentName := "S".toList, counter := 65534 }
  let line : CodeLine := ⟨3, "A".toList, ["DW".toList, "1".toList]⟩
  have hr : s.scan line ∈ l.records := by decide
  have haims : s.Aims line 65536 :=
    @State.Aims.data s line "A".toList .word ["1".toList] rfl (by decide) (by decide) (by decide)
  exact ⟨_, hr, haims, hunwrapped.overflow _ hr 65536 haims (by decide)⟩

end Layout

end SegmentAssembler
