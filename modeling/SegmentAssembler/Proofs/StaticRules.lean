import SegmentAssembler.Proofs.CleanVerdicts
import SegmentAssembler.Proofs.Declarations
import SegmentAssembler.Proofs.InstructionForm
import SegmentAssembler.Proofs.NameLetters
import SegmentAssembler.Proofs.StatementForms

/-!
# The static rules of the language

Which programs does the scan pass without an error?  The rules are written down
here without the scan.  They go through the lines with a `Tally`: the address
counter, the names declared so far and the address of the first item.  A
program is empty, or it is one segment:

    id SEGMENT          a name that is no keyword, and nothing else on the line
    body lines          each of them by one of the rules below
    ENDS  or  id ENDS   may be missing; nothing comes after it

    ORG v               v is an address
    OFFSET v            v is a word value and leads to 0 … 25565
    id:                 a new name
    id DW v …           a new name that is no keyword, values of the type or
    id DB v …           question marks, and room for all of them, for one at least
    mnemonic operands   one of the shapes below, and room for it

    MOV SBB   reg , reg     2 bytes        MUL   reg      2 bytes
              reg , number  4              JA    name     2
              reg , name    4              INT   number   2
              name, reg     4

At the end the counter is not below the first item.

* `grants_of_bodyLine`, `bodyLine_of_grants` — a body line follows the rules
  exactly if the open segment takes it without an error;
* `run_of_body`, `body_of_run` — so do the lines up to the end of the segment;
* `no_errors_iff_wellFormed` — the scan reports no error exactly for the
  programs that follow the rules.
-/

namespace SegmentAssembler

/-! ### The rules -/

/-- What the rules for a line look at. -/
structure Tally where
  counter : Nat := 0
  /-- The declared names as they were typed. -/
  declared : List Text := []
  /-- The address of the first item. -/
  start : Option Nat := none
deriving DecidableEq, Repr

namespace Tally

/-- A name that has not been declared in letters of either case. -/
def IsNew (t : Tally) (id : Text) : Prop :=
  isName id = true ∧ ∀ other ∈ t.declared, Text.sameLetters id other = false

def declare (t : Tally) (id : Text) : Tally := { t with declared := t.declared ++ [id] }

/-- An item of some size is put where the counter stands. -/
def put (t : Tally) (size : Nat) : Tally :=
  { t with counter := t.counter + size, start := t.start.or (some t.counter) }

end Tally

/-- The instructions by their operands, with their sizes. -/
inductive Shape : Mnemonic → List Operand → Nat → Prop
  | registers {m : Mnemonic} (hm : m = .mov ∨ m = .sbb) (a b : Register) :
      Shape m [.register a, .register b] 2
  | constant {m : Mnemonic} (hm : m = .mov ∨ m = .sbb) (a : Register) (v : Int) :
      Shape m [.register a, .immediate v] 4
  | load {m : Mnemonic} (hm : m = .mov ∨ m = .sbb) (a : Register) (name : Text) :
      Shape m [.register a, .address name] 4
  | store {m : Mnemonic} (hm : m = .mov ∨ m = .sbb) (name : Text) (b : Register) :
      Shape m [.address name, .register b] 4
  | multiply (a : Register) : Shape .mul [.register a] 2
  | jump (name : Text) : Shape .ja [.address name] 2
  | interrupt (v : Int) : Shape .int [.immediate v] 2

/-- The rule for a line inside the segment, with the tally before and after it. -/
inductive BodyLine (t : Tally) : CodeLine → Tally → Prop
  | org {n : Nat} {head word : Text} {v : Int} (hhead : Directive.ofName? head = some .org)
      (hread : Numeral.read? word = some v) (hlow : 0 ≤ v) (htop : v ≤ 65535) :
      BodyLine t ⟨n, head, [word]⟩ { t with counter := v.toNat }
  | offset {n : Nat} {head word : Text} {v : Int} (hhead : Directive.ofName? head = some .offset)
      (hread : Numeral.read? word = some v) (hrange : -65536 ≤ v ∧ v ≤ 65535)
      (hlow : 0 ≤ t.counter + v) (hlimit : t.counter + v ≤ 25565) :
      BodyLine t ⟨n, head, [word]⟩ { t with counter := (t.counter + v).toNat }
  | label {n : Nat} {id : Text} (hnew : t.IsNew id) :
      BodyLine t ⟨n, id ++ [':'], []⟩ (t.declare id)
  | data {n : Nat} {id word : Text} {type : DataType} {values : List Text} (hnew : t.IsNew id)
      (hkeyword : isKeyword id = false) (hword : Directive.ofName? word = some type.directive)
      (hvalues : ∀ value ∈ values, IsValue type value)
      (htop : t.counter + type.width * max 1 values.length ≤ 65535) :
      BodyLine t ⟨n, id, word :: values⟩ ((t.declare id).put (type.width * max 1 values.length))
  | instruction {n : Nat} {head : Text} {m : Mnemonic} {words : List Text} {size : Nat}
      (hhead : Mnemonic.ofName? head = some m) (hshape : Shape m (words.map Operand.ofWord) size)
      (htop : t.counter + size ≤ 65535) :
      BodyLine t ⟨n, head, words⟩ (t.put size)

/-- The line that ends the segment of a given name. -/
inductive ClosingLine (id : Text) : CodeLine → Prop
  | plain {n : Nat} {head : Text} (hhead : Directive.ofName? head = some .ends) :
      ClosingLine id ⟨n, head, []⟩
  | named {n : Nat} {name word : Text} (hname : Text.sameLetters name id = true)
      (hword : Directive.ofName? word = some .ends) : ClosingLine id ⟨n, name, [word]⟩

/-- The lines behind the opening of a segment: body lines, and then the line
that ends the segment or none. -/
inductive Body (id : Text) : Tally → List CodeLine → Tally → Prop
  | done (t : Tally) : Body id t [] t
  | close (t : Tally) {line : CodeLine} (hline : ClosingLine id line) : Body id t [line] t
  | next {t u v : Tally} {line : CodeLine} {rest : List CodeLine} (hline : BodyLine t line u)
      (hrest : Body id u rest v) : Body id t (line :: rest) v

/-- The programs that follow the rules. -/
inductive WellFormed : List CodeLine → Prop
  | empty : WellFormed []
  | segment {n : Nat} {id word : Text} {rest : List CodeLine} {t : Tally}
      (hname : isName id = true) (hkeyword : isKeyword id = false)
      (hword : Directive.ofName? word = some .segment) (hbody : Body id {} rest t)
      (hstart : t.start.getD 0 ≤ t.counter) : WellFormed (⟨n, id, [word]⟩ :: rest)

/-! ### Shapes and the opcode table -/

/-- A word alone is never the target of a jump. -/
theorem Operand.ofWord_ne_displacement (word name : Text) : ofWord word ≠ .displacement name := by
  rw [ofWord_eq]
  split
  · exact nofun
  · split
    · unfold numberOrName
      split <;> exact nofun
    · exact nofun

/-- The operands of an instruction line as the opcode table sees them: at most
two, with the target of a jump in the place of a name. -/
def operandPair (m : Mnemonic) (words : List Text) : Option Operand × Option Operand :=
  (asTarget m (words[0]?.map Operand.ofWord) (words[1]?.map Operand.ofWord),
    words[1]?.map Operand.ofWord)

/-- Every shape has a row in the opcode table, and the size that stands with it. -/
theorem Shape.exists_row {m : Mnemonic} {words : List Text} {size : Nat}
    (h : Shape m (words.map Operand.ofWord) size) :
    words.length ≤ 2 ∧ Instruction.lengthOf (operandPair m words).1 (operandPair m words).2 = size ∧
      ∃ template, Template.lookup? m ((operandPair m words).1.map Operand.kind)
        ((operandPair m words).2.map Operand.kind) = some template := by
  generalize hops : words.map Operand.ofWord = ops at h
  have hlength : words.length = ops.length := by rw [← hops, List.length_map]
  have hop : ∀ i : Nat, words[i]?.map Operand.ofWord = ops[i]? := by
    intro i
    rw [← hops, List.getElem?_map]
  simp only [operandPair, hop, hlength]
  cases h with
  | registers hm | constant hm | load hm | store hm =>
      rcases hm with rfl | rfl <;> exact ⟨Nat.le_refl 2, rfl, _, rfl⟩
  | multiply | jump | interrupt => exact ⟨Nat.le_succ 1, rfl, _, rfl⟩

/-- Only two mnemonics have rows with two operands. -/
private theorem moves_of_row {m : Mnemonic} {k1 k2 : Operand.Kind} {template : Template}
    (h : Template.lookup? m (some k1) (some k2) = some template) : m = .mov ∨ m = .sbb := by
  cases m with
  | mov => exact Or.inl rfl
  | sbb => exact Or.inr rfl
  | mul | ja | int => cases k1 <;> cases k2 <;> cases h

/-- A row for two operands makes a shape. -/
private theorem shape_of_two {m : Mnemonic} {a b : Operand} {template : Template}
    (h : Template.lookup? m (some a.kind) (some b.kind) = some template) :
    Shape m [a, b] (Instruction.lengthOf (some a) (some b)) := by
  have hm := moves_of_row h
  cases a with
  | register a =>
      cases b with
      | register b => exact .registers hm a b
      | immediate v => exact .constant hm a v
      | address name => exact .load hm a name
      | displacement name => rcases hm with rfl | rfl <;> cases h
  | address name =>
      cases b with
      | register b => exact .store hm name b
      | address _ | immediate _ | displacement _ => rcases hm with rfl | rfl <;> cases h
  | immediate _ | displacement _ => cases b <;> rcases hm with rfl | rfl <;> cases h

/-- A row for one operand makes a shape. -/
private theorem shape_of_one {m : Mnemonic} {a : Operand} {template : Template}
    (hname : ∀ name, a ≠ .displacement name)
    (h : Template.lookup? m ((asTarget m (some a) none).map Operand.kind) none = some template) :
    Shape m [a] (Instruction.lengthOf (asTarget m (some a) none) none) := by
  cases a with
  | register a =>
      cases m with
      | mul => exact .multiply a
      | mov | sbb | ja | int => cases h
  | address name =>
      cases m with
      | ja => exact .jump name
      | mov | sbb | mul | int => cases h
  | immediate v =>
      cases m with
      | int => exact .interrupt v
      | mov | sbb | mul | ja => cases h
  | displacement name => exact absurd rfl (hname name)

/-- Operands that stand in the table make a shape. -/
theorem shape_of_row {m : Mnemonic} {words : List Text} {template : Template}
    (hcount : words.length ≤ 2)
    (h : Template.lookup? m ((operandPair m words).1.map Operand.kind)
      ((operandPair m words).2.map Operand.kind) = some template) :
    Shape m (words.map Operand.ofWord)
      (Instruction.lengthOf (operandPair m words).1 (operandPair m words).2) := by
  match words, hcount with
  | [], _ => cases m <;> cases h
  | [word], _ => exact shape_of_one (Operand.ofWord_ne_displacement word) h
  | [first, second], _ =>
      have hfirst : (operandPair m [first, second]).1 = some (Operand.ofWord first) := by
        simp only [operandPair, List.getElem?_cons_zero, List.getElem?_cons_succ, Option.map_some]
        cases Operand.ofWord first <;> rfl
      rw [hfirst] at h ⊢
      exact shape_of_two h

/-! ### Tallies and states -/

/-- The address of the first item among some records. -/
def startOf (records : List Record) : Option Nat :=
  (records.find? fun r => r.verdict.effect.item?.isSome).map fun r => r.before.counter

/-- The first item is on the first line, or it is the first of the rest. -/
theorem startOf_cons (r : Record) (rest : List Record) :
    startOf (r :: rest) =
      (r.verdict.effect.item?.map fun _ => r.before.counter).or (startOf rest) := by
  unfold startOf
  cases hitem : r.verdict.effect.item? with
  | none => simp [hitem]
  | some item => simp [hitem]

/-- A free name is filed behind the others. -/
theorem SymbolTable.keys_declare {t : SymbolTable} {name : Text} {symbol : Symbol}
    (h : t.contains name = false) :
    (t.declare name symbol).keys = t.keys ++ [Text.upper name] := by
  simp [keys, entries_declare_of_not_contains h]

namespace State

/-- The scan is inside the segment of the given name and has come as far as
the tally says. -/
structure Within (s : State) (id : Text) (t : Tally) : Prop where
  phase : s.phase = .opened
  segmentName : s.segmentName = Text.upper id
  counter : s.counter = t.counter
  keys : s.names.keys = t.declared.map Text.asciiUpper

variable {s : State} {id : Text} {t : Tally}

namespace Within

/-- A name is new to the tally if it is new to the scan. -/
theorem isNew_iff (h : s.Within id t) {name : Text} :
    t.IsNew name ↔ isName name = true ∧ s.names.contains name = false := by
  unfold Tally.IsNew
  refine and_congr_right fun hname => ?_
  rw [SymbolTable.contains_eq_false_iff, h.keys, Text.upper_of_isName hname]
  simp only [List.mem_map, not_exists, not_and, ← Bool.not_eq_true, Text.sameLetters_iff]
  exact forall₂_congr fun other _ => not_congr eq_comm

/-- A line that moves the counter keeps the names. -/
theorem moved (h : s.Within id t) (address : Nat) :
    (s.apply (.moved address)).Within id { t with counter := address } :=
  ⟨h.phase, h.segmentName, rfl, h.keys⟩

/-- A label declares its name and moves nothing. -/
theorem labelled (h : s.Within id t) {name : Text} (hnew : t.IsNew name) :
    (s.apply (.labelled name)).Within id (t.declare name) := by
  obtain ⟨hname, hfree⟩ := h.isNew_iff.mp hnew
  refine ⟨h.phase, h.segmentName, h.counter, ?_⟩
  rw [names_apply]
  simp only [namesAfter, Effect.declared?, SymbolTable.keys_declare hfree, h.keys, Tally.declare,
    List.map_append, List.map_cons, List.map_nil, Text.upper_of_isName hname]

/-- A definition declares its name and takes the room of its values. -/
theorem defined (h : s.Within id t) {name : Text} (hnew : t.IsNew name) (type : DataType)
    (values : List (Option Int)) :
    (s.apply (.defined name type values)).Within id
      ((t.declare name).put (type.width * values.length)) := by
  obtain ⟨hname, hfree⟩ := h.isNew_iff.mp hnew
  refine ⟨h.phase, h.segmentName, ?_, ?_⟩
  · rw [counter_apply]
    simp only [counterAfter, h.counter]
    rfl
  · rw [names_apply]
    simp only [namesAfter, Effect.declared?, SymbolTable.keys_declare hfree, h.keys, Tally.declare,
      Tally.put, List.map_append, List.map_cons, List.map_nil, Text.upper_of_isName hname]

/-- An instruction takes the room of its code. -/
theorem collected (h : s.Within id t) (m : Mnemonic) (i : Instruction) :
    (s.apply (.collected m i)).Within id (t.put i.length) := by
  refine ⟨h.phase, h.segmentName, ?_, h.keys⟩
  rw [counter_apply]
  simp only [counterAfter, h.counter]
  rfl

end Within

/-! ### Body lines and the verdicts on them -/

/-- **A body line is taken without an error**, and the scan goes where the rule
says. -/
theorem grants_of_bodyLine {line : CodeLine} {u : Tally} (h : BodyLine t line u)
    (hs : s.Within id t) :
    ∃ v, s.Grants (.ofWords line.head line.rest) v ∧ (s.apply v.effect).Within id u ∧
      u.start = t.start.or (v.effect.item?.map fun _ => s.counter) := by
  cases h with
  | org hhead hread hlow htop =>
      rw [Statement.ofWords_of_directive hhead]
      exact ⟨_, .org hread hlow htop, hs.moved _, Option.or_none.symm⟩
  | @offset n head word v hhead hread hrange hlow hlimit =>
      rw [← hs.counter] at hlow hlimit ⊢
      have hvalue : DataType.word.contains v = true := by
        rw [DataType.contains_iff]
        simp only [DataType.modulus]
        omega
      rw [Statement.ofWords_of_directive hhead]
      exact ⟨_, .offset hread hvalue hlow hlimit, hs.moved _, Option.or_none.symm⟩
  | label hnew =>
      obtain ⟨hname, hfree⟩ := hs.isNew_iff.mp hnew
      rw [Statement.ofWords_label]
      exact ⟨_, .label hname hfree, hs.labelled hnew, Option.or_none.symm⟩
  | @data n name word type values hnew hkeyword hword hvalues htop =>
      obtain ⟨hname, hfree⟩ := hs.isNew_iff.mp hnew
      rw [Statement.ofWords_named hname hkeyword, Statement.ofNamed_define hword]
      rw [← hs.counter] at htop
      refine ⟨_, .define hname hfree hvalues htop, ?_, by rw [hs.counter]; rfl⟩
      rw [← length_definedValues type]
      exact hs.defined hnew type _
  | @instruction n head m words size hhead hshape htop =>
      obtain ⟨hcount, rfl, template, hrow⟩ := hshape.exists_row
      rw [Statement.ofWords_of_mnemonic hhead]
      rw [← hs.counter] at htop
      exact ⟨_, .instruction hcount rfl rfl hrow htop, hs.collected m _, by rw [hs.counter]; rfl⟩

/-- The line that ends the segment is taken without an error. -/
theorem grants_of_closingLine {line : CodeLine} (h : ClosingLine id line)
    (hname : isName id = true) (hkeyword : isKeyword id = false) (hs : s.Within id t) :
    s.Grants (.ofWords line.head line.rest) (.accept .closed) := by
  cases h with
  | plain hhead =>
      rw [Statement.ofWords_of_directive hhead]
      exact .close fun n hn => nomatch hn
  | @named n name word hsame hword =>
      -- the name is a name and no keyword because that of the segment is
      have hletters := (Text.sameLetters_iff name id).mp hsame
      have hname' : isName name = true := by
        rw [← isName_asciiUpper, hletters, isName_asciiUpper, hname]
      have hkeyword' : isKeyword name = false := by
        rw [← isKeyword_asciiUpper, hletters, isKeyword_asciiUpper, hkeyword]
      rw [Statement.ofWords_named hname' hkeyword', Statement.ofNamed_close hword]
      refine .close fun other hother => ?_
      obtain rfl : name = other := Option.some.inj hother
      rw [hs.segmentName, Text.sameLetters_upper_iff hname, hsame]

/-- **What is taken without an error follows the rules**, or ends the segment. -/
theorem bodyLine_of_grants {line : CodeLine} {v : Verdict}
    (h : s.Grants (.ofWords line.head line.rest) v) (hend : line.isEnd = false)
    (hname : isName id = true) (hs : s.Within id t) :
    (∃ u, BodyLine t line u) ∨ ClosingLine id line := by
  obtain ⟨n, head, rest⟩ := line
  have hsays := Statement.says_ofWords (CodeLine.isEnd_eq_false_iff.mp hend) rest
  simp only at h hsays
  generalize Statement.ofWords head rest = stmt at h hsays
  cases h with
  | @org word v hread hlow htop =>
      cases hsays with
      | org hhead => exact Or.inl ⟨_, .org hhead hread hlow htop⟩
  | @offset word v hread hrange hlow hlimit =>
      rw [hs.counter] at hlow hlimit
      rw [DataType.contains_iff] at hrange
      simp only [DataType.modulus] at hrange
      cases hsays with
      | offset hhead => exact Or.inl ⟨_, .offset hhead hread (by omega) hlow hlimit⟩
  | close hsegment =>
      cases hsays with
      | close hhead => exact Or.inr (.plain hhead)
      | closeNamed hrest hword =>
          subst hrest
          have hsame := hsegment head rfl
          rw [hs.segmentName, Text.sameLetters_upper_iff hname] at hsame
          exact Or.inr (.named hsame hword)
  | label hlabel hfree =>
      cases hsays with
      | label hhead =>
          subst hhead
          exact Or.inl ⟨_, .label (hs.isNew_iff.mpr ⟨hlabel, hfree⟩)⟩
  | define hlabel hfree hvalues htop =>
      rw [hs.counter] at htop
      cases hsays with
      | define hkeyword hrest hword =>
          subst hrest
          exact Or.inl ⟨_, .data (hs.isNew_iff.mpr ⟨hlabel, hfree⟩) hkeyword hword hvalues htop⟩
  | instruction hcount hop1 hop2 hrow htop =>
      subst hop2
      subst hop1
      rw [hs.counter] at htop
      cases hsays with
      | instruction hhead => exact Or.inl ⟨_, .instruction hhead (shape_of_row hcount hrow) htop⟩

/-! ### The lines of a segment -/

/-- Behind the end of the segment no line is clean. -/
theorem clean_run_of_closed {lines : List CodeLine} (hphase : s.phase = .closed)
    (h : ∀ r ∈ s.run lines, r.verdict.Clean) : lines = [] := by
  cases lines with
  | nil => rfl
  | cons line rest =>
      have hopened := (grants_of_clean (by rw [hphase]; decide) (h _ List.mem_cons_self)).1
      rw [hphase] at hopened
      exact nomatch hopened

/-- **Lines that follow the rules are scanned without an error**, and the scan
ends with the tally. -/
theorem run_of_body {lines : List CodeLine} {u : Tally} (h : Body id t lines u)
    (hname : isName id = true) (hkeyword : isKeyword id = false) (hs : s.Within id t) :
    (∀ r ∈ s.run lines, r.verdict.Clean) ∧ (s.finish (s.run lines)).counter = u.counter ∧
      u.start = t.start.or (startOf (s.run lines)) := by
  induction h generalizing s with
  | done t => exact ⟨List.forall_mem_nil _, hs.counter, Option.or_none.symm⟩
  | close t hline =>
      have hgrants := grants_of_closingLine hline hname hkeyword hs
      obtain ⟨hscan, hclean⟩ := scan_of_grants hs.phase hgrants
      rw [run_cons, hscan, finish_cons]
      exact ⟨List.forall_mem_cons.mpr ⟨hclean, List.forall_mem_nil _⟩, hs.counter,
        Option.or_none.symm⟩
  | next hline hrest ih =>
      obtain ⟨v, hgrants, hnext, hstart⟩ := grants_of_bodyLine hline hs
      obtain ⟨hscan, hclean⟩ := scan_of_grants hs.phase hgrants
      obtain ⟨hcleans, hcounter, hstarts⟩ := ih hnext
      rw [run_cons, hscan, finish_cons, startOf_cons]
      refine ⟨List.forall_mem_cons.mpr ⟨hclean, hcleans⟩, hcounter, ?_⟩
      rw [hstarts, hstart, Option.or_assoc]
      rfl

/-- **What is scanned without an error follows the rules.** -/
theorem body_of_run {lines : List CodeLine} (hend : ∀ line ∈ lines, line.isEnd = false)
    (hname : isName id = true) (hkeyword : isKeyword id = false) (hs : s.Within id t)
    (h : ∀ r ∈ s.run lines, r.verdict.Clean) : ∃ u, Body id t lines u := by
  induction lines generalizing s t with
  | nil => exact ⟨t, .done t⟩
  | cons line rest ih =>
      rw [run_cons, List.forall_mem_cons] at h
      rw [List.forall_mem_cons] at hend
      obtain ⟨-, hgranted⟩ := grants_of_clean (by rw [hs.phase]; decide) h.1
      rcases bodyLine_of_grants hgranted hend.1 hname hs with ⟨u, hline⟩ | hline
      · obtain ⟨v, hgrants, hnext, -⟩ := grants_of_bodyLine hline hs
        have hscan := (scan_of_grants hs.phase hgrants).1
        obtain ⟨w, hrest⟩ := ih hend.2 hnext (by rw [hscan] at h; exact h.2)
        exact ⟨w, .next hline hrest⟩
      · -- the segment is closed here, and every further line would be an error
        have hgrants := grants_of_closingLine hline hname hkeyword hs
        have hclosed : (s.scan line).next.phase = .closed := by
          rw [(scan_of_grants hs.phase hgrants).1]
          rfl
        obtain rfl := clean_run_of_closed hclosed h.2
        exact ⟨t, .close t hline⟩

/-! ### The whole program -/

/-- Behind the opening line the segment is open and nothing is counted yet. -/
theorem within_opened (id : Text) : (apply {} (.opened (Text.upper id))).Within id {} :=
  ⟨rfl, rfl, rfl, rfl⟩

/-- **A scan without an error, and a counter that is not below the first item:**
these are the programs that follow the rules. -/
theorem run_clean_iff_wellFormed {lines : List CodeLine}
    (hend : ∀ line ∈ lines, line.isEnd = false) :
    (∀ r ∈ run {} lines, r.verdict.Clean) ∧
        (startOf (run {} lines)).getD 0 ≤ (finish {} (run {} lines)).counter ↔
      WellFormed lines := by
  constructor
  · rintro ⟨hclean, hstart⟩
    cases lines with
    | nil => exact .empty
    | cons line rest =>
        obtain ⟨n, id, words⟩ := line
        rw [run_cons] at hclean hstart
        rw [List.forall_mem_cons] at hclean hend
        have hopening : (judgeOpening {} id words).Clean := hclean.1
        obtain ⟨word, rfl, hword, hname, hkeyword⟩ := judgeOpening_clean_iff.mp hopening
        rw [scan_opening hname hkeyword hword] at hclean hstart
        obtain ⟨t, hbody⟩ := body_of_run hend.2 hname hkeyword (within_opened id) hclean.2
        obtain ⟨-, hcounter, hstarts⟩ := run_of_body hbody hname hkeyword (within_opened id)
        refine .segment hname hkeyword hword hbody ?_
        rw [finish_cons, startOf_cons] at hstart
        rw [hstarts, ← hcounter]
        exact hstart
  · intro h
    cases h with
    | empty => exact ⟨List.forall_mem_nil _, Nat.le_refl _⟩
    | @segment n id word rest t hname hkeyword hword hbody hstart =>
        obtain ⟨hcleans, hcounter, hstarts⟩ := run_of_body hbody hname hkeyword (within_opened id)
        rw [hstarts, ← hcounter] at hstart
        rw [run_cons, scan_opening hname hkeyword hword, finish_cons, startOf_cons]
        exact ⟨List.forall_mem_cons.mpr ⟨Verdict.clean_accept _, hcleans⟩, hstart⟩

end State

namespace Layout

/-- The segment starts at its first item, and at zero without one. -/
theorem startAddress_eq (l : Layout) : l.startAddress = (startOf l.records).getD 0 := by
  unfold startAddress firstAddress startOf
  cases l.records.find? fun r => r.verdict.effect.item?.isSome <;> rfl

/-- **The scan accepts exactly the programs that follow the rules.**  Whatever
the source, no error is reported for the lines up to the end of the program
exactly if there is no such line or they make up a segment by the rules. -/
theorem no_errors_iff_wellFormed (source : Text) :
    (Report.ofFindings (ofSource source).findings).hasErrors = false ↔
      WellFormed (programLines (splitLines source)) := by
  have hextent : 0 ≤ (ofSource source).extent ↔
      (startOf (ofSource source).records).getD 0 ≤ (ofSource source).final.counter := by
    rw [extent, startAddress_eq]
    omega
  rw [hasErrors_findings_eq_false_iff, hextent]
  exact State.run_clean_iff_wellFormed fun line => isEnd_eq_false_of_mem_programLines

/-- Every line follows its rule, and nothing is reported. -/
example :
    let source := "S SEGMENT\nX DW 1, ?\nL:\nja l\ns ends\nEND".toList
    (Report.ofFindings (ofSource source).findings).errors = [] ∧
      WellFormed (programLines (splitLines source)) := by
  intro source
  have hlines : programLines (splitLines source) =
      [⟨1, "S".toList, ["SEGMENT".toList]⟩, ⟨2, "X".toList, ["DW".toList, "1".toList, "?".toList]⟩,
        ⟨3, "L".toList ++ [':'], []⟩, ⟨4, "ja".toList, ["l".toList]⟩,
        ⟨5, "s".toList, ["ends".toList]⟩] := by decide
  have hvalues : ∀ value ∈ ["1".toList, "?".toList], IsValue .word value :=
    List.forall_mem_cons.mpr ⟨.inr ⟨1, by decide, by decide⟩,
      List.forall_mem_singleton.mpr (.inl (by decide))⟩
  have hword : Directive.ofName? "DW".toList = some DataType.word.directive := by decide
  have hjump : Mnemonic.ofName? "ja".toList = some .ja := by decide
  let last : Tally := ⟨6, ["X".toList, "L".toList], some 0⟩
  rw [hlines]
  refine ⟨by decide, @WellFormed.segment _ _ _ _ last (by decide) (by decide) (by decide) ?_
    (by decide)⟩
  refine .next (.data ⟨by decide, by decide⟩ (by decide) hword hvalues (by decide)) ?_
  refine .next (.label ⟨by decide, by decide⟩) ?_
  refine .next (.instruction hjump (.jump _) (by decide)) ?_
  exact .close last (.named (by decide) (by decide))

/-- The second label has the name of the first in letters of the other case. -/
example :
    let source := "S SEGMENT\nL:\nl:\nS ENDS".toList
    (Report.ofFindings (ofSource source).findings).errors = [(3, .duplicateId "L".toList)] ∧
      ¬WellFormed (programLines (splitLines source)) := by
  intro source
  refine ⟨by decide, ?_⟩
  rw [← State.run_clean_iff_wellFormed (by decide)]
  rintro ⟨hclean, -⟩
  revert hclean
  unfold Verdict.Clean NoError
  decide

end Layout

end SegmentAssembler
