import SegmentAssembler.Proofs.NameLetters
import SegmentAssembler.Proofs.Respelling

/-!
# Words that the scan cannot tell apart

Keywords, registers, numerals and names are all read in letters of either case.
So the scan takes the same way through two programs whose words agree up to the
case of their letters; the spelling of a word comes back only in what the scan
quotes.

* `toUpper_blind` — a rule for characters that treats the two cases of the 26
  letters alike treats every character like its capital;
* `Spelling` — a relation under which corresponding words agree in this sense
  and which the few words that the scan makes up itself respect;
* `State.judge_respelled` — a state passes corresponding verdicts on
  corresponding lines, and goes on in the same state (`Spelling.apply_eq`);
* `Spelling.respelled_ofSource` — so two sources with corresponding words are laid
  out alike.

The relation may also be finer than that.  Where it holds of a word and itself
only, the same theorems say of which words a report consists.
-/

namespace SegmentAssembler

/-! ### Letters of either case -/

theorem toNat_lt_of_isAlpha {c : Char} (h : c.isAlpha = true) : c.toNat < 128 := by
  apply toNat_lt_of_isNamePart
  simp [isNamePart, Char.isAlphanum, h]

/-- **A rule that is blind to the case of letters.**  Only letters have another
capital than themselves, and these are few enough to be tried. -/
theorem toUpper_blind {α : Type} {f : Char → α}
    (h : ∀ n < 128, f (Char.ofNat n).toUpper = f (Char.ofNat n)) (c : Char) :
    f c.toUpper = f c := by
  cases halpha : c.isAlpha with
  | true =>
      have hc := h c.toNat (toNat_lt_of_isAlpha halpha)
      rwa [Char.ofNat_toNat] at hc
  | false => rw [toUpper_of_not_isAlpha halpha]

/-- A character that is no letter is the capital of itself alone. -/
theorem toUpper_eq_iff {d : Char}
    (hd : ∀ n < 128, ((Char.ofNat n).toUpper = d) = (Char.ofNat n = d)) (c : Char) :
    c.toUpper = d ↔ c = d :=
  iff_of_eq (toUpper_blind (f := fun c => c = d) hd c)

/-- The capital form does not see the case of ASCII letters. -/
theorem Text.upper_asciiUpper (t : Text) : upper (asciiUpper t) = upper t := by
  have hcapital : ∀ c : Char, capital c.toUpper = capital c := toUpper_blind (by decide)
  induction t with
  | nil => rfl
  | cons c t ih => rw [asciiUpper_cons, upper_cons, upper_cons, ih, hcapital]

namespace Numeral

theorem digitValue_toUpper (c : Char) : digitValue c.toUpper = digitValue c :=
  toUpper_blind (by decide) c

theorem magnitude?_asciiUpper (base : Nat) (t : Text) :
    magnitude? base (Text.asciiUpper t) = magnitude? base t := by
  have hall : (Text.asciiUpper t).all (isDigit base) = t.all (isDigit base) := by
    simp only [Text.asciiUpper, List.all_map]
    congr 1
    funext c
    rw [Function.comp_apply, isDigit, isDigit, digitValue_toUpper]
  have hvalue : value base (Text.asciiUpper t) = value base t := by
    simp [value, Text.asciiUpper, List.foldl_map, digitValue_toUpper]
  have hne : Text.asciiUpper t ≠ [] ↔ t ≠ [] := by simp [Text.asciiUpper]
  simp only [magnitude?, hall, hvalue, hne]

theorem signed?_asciiUpper (base : Nat) (t : Text) :
    signed? base (Text.asciiUpper t) = signed? base t := by
  have hminus : ∀ c : Char, c.toUpper = '-' ↔ c = '-' := toUpper_eq_iff (by decide)
  have hplus : ∀ c : Char, c.toUpper = '+' ↔ c = '+' := toUpper_eq_iff (by decide)
  cases t with
  | nil => rfl
  | cons c digits =>
      have hmagnitude := magnitude?_asciiUpper base (c :: digits)
      rw [Text.asciiUpper_cons] at hmagnitude ⊢
      by_cases hc : c = '-'
      · subst hc
        exact congrArg (fun n => (n.map fun n => -(n : Int)).filter fits)
          (magnitude?_asciiUpper base digits)
      · by_cases hc' : c = '+'
        · subst hc'
          exact congrArg (fun n => (n.map fun n => (n : Int)).filter fits)
            (magnitude?_asciiUpper base digits)
        · simp [signed?, hc, hc', hminus, hplus, hmagnitude]

/-- **Numerals are read in letters of either case.** -/
theorem read?_asciiUpper (t : Text) : read? (Text.asciiUpper t) = read? t := by
  have hmark : ∀ c : Char, (c.toUpper == 'H' || c.toUpper == 'h') = (c == 'H' || c == 'h') :=
    toUpper_blind (f := fun c => c == 'H' || c == 'h') (by decide)
  have hhex : isHex (Text.asciiUpper t) = isHex t := by
    unfold isHex Text.asciiUpper
    rw [List.getLast?_map]
    cases t.getLast? with
    | none => rfl
    | some c => simpa using hmark c
  have hdigits : (Text.asciiUpper t).dropLast = Text.asciiUpper t.dropLast :=
    List.map_dropLast.symm
  rw [read?, read?, hhex, hdigits, signed?_asciiUpper, signed?_asciiUpper]

end Numeral

/-- What begins a number does so in either case. -/
theorem Operand.startsNumber_asciiUpper (t : Text) :
    startsNumber (Text.asciiUpper t) = startsNumber t := by
  have hminus : ∀ c : Char, c.toUpper = '-' ↔ c = '-' := toUpper_eq_iff (by decide)
  have hdigit : ∀ c : Char, isDecimalDigit c.toUpper = isDecimalDigit c := by
    intro c
    rw [isDecimalDigit, isDecimalDigit, Numeral.isDigit, Numeral.isDigit,
      Numeral.digitValue_toUpper]
  cases t with
  | nil => rfl
  | cons c rest =>
      by_cases hc : c = '-'
      · subst hc
        cases rest with
        | nil => rfl
        | cons d rest => exact hdigit d
      · simp [startsNumber, hc, hminus, hdigit]

/-! ### Corresponding words -/

/-- Words correspond only if they agree up to the case of their letters; and
the words that the scan itself puts into a report correspond to themselves. -/
structure Spelling (R : Text → Text → Prop) : Prop where
  letters : ∀ {x y : Text}, R x y → Text.asciiUpper y = Text.asciiUpper x
  dropLast : ∀ {x y : Text}, R x y → R x.dropLast y.dropLast
  nil : R [] []
  directive : ∀ d : Directive, R d.name d.name
  capital : ∀ {id : Text}, isName id = true → R (Text.upper id) (Text.upper id)

/-- The same line with corresponding words. -/
structure CodeLine.Respelled (R : Text → Text → Prop) (line line' : CodeLine) : Prop where
  number : line'.number = line.number
  head : R line.head line'.head
  rest : List.Forall₂ R line.rest line'.rest

/-- The same statement with corresponding words. -/
inductive Statement.Respelled (R : Text → Text → Prop) : Statement → Statement → Prop
  | instruction (m : Mnemonic) {ws ws' : List Text} (h : List.Forall₂ R ws ws') :
      Respelled R (.instruction m ws) (.instruction m ws')
  | org {ws ws' : List Text} (h : List.Forall₂ R ws ws') : Respelled R (.org ws) (.org ws')
  | offset {ws ws' : List Text} (h : List.Forall₂ R ws ws') :
      Respelled R (.offset ws) (.offset ws')
  | close {name name' : Option Text} (hname : Option.Rel R name name') {ws ws' : List Text}
      (h : List.Forall₂ R ws ws') : Respelled R (.close name ws) (.close name' ws')
  | label {id id' : Text} (hid : R id id') {ws ws' : List Text} (h : List.Forall₂ R ws ws') :
      Respelled R (.label id ws) (.label id' ws')
  | define {id id' : Text} (hid : R id id') (type : DataType) {ws ws' : List Text}
      (h : List.Forall₂ R ws ws') : Respelled R (.define id type ws) (.define id' type ws')
  | misplaced (d : Directive) : Respelled R (.misplaced d) (.misplaced d)
  | unknown : Respelled R .unknown .unknown

/-- The same verdict, with corresponding words. -/
structure Verdict.Respelled (R : Text → Text → Prop) (v v' : Verdict) : Prop where
  findings : List.Forall₂ (Finding.Respelled R) v.findings v'.findings
  effect : v.effect.Respelled R v'.effect

namespace Spelling

variable {R : Text → Text → Prop} (hR : Spelling R) {x y : Text}

include hR

/-- What does not depend on the case of letters is the same of corresponding words. -/
theorem congr {α : Type} {f : Text → α} (hf : ∀ t, f (Text.asciiUpper t) = f t) (h : R x y) :
    f y = f x := by
  rw [← hf y, hR.letters h, hf]

theorem upper_eq (h : R x y) : Text.upper y = Text.upper x := hR.congr Text.upper_asciiUpper h

theorem mnemonic_eq (h : R x y) : Mnemonic.ofName? y = Mnemonic.ofName? x := by
  rw [Mnemonic.ofName?, Mnemonic.ofName?, hR.letters h]

theorem directive_eq (h : R x y) : Directive.ofName? y = Directive.ofName? x := by
  rw [Directive.ofName?, Directive.ofName?, hR.letters h]

theorem register_eq (h : R x y) : Register.ofName? y = Register.ofName? x := by
  rw [Register.ofName?, Register.ofName?, hR.letters h]

theorem isName_eq (h : R x y) : isName y = isName x := hR.congr isName_asciiUpper h

theorem isKeyword_eq (h : R x y) : isKeyword y = isKeyword x := hR.congr isKeyword_asciiUpper h

theorem read?_eq (h : R x y) : Numeral.read? y = Numeral.read? x :=
  hR.congr Numeral.read?_asciiUpper h

theorem sameLetters_eq (h : R x y) (t : Text) : Text.sameLetters y t = Text.sameLetters x t := by
  rw [Text.sameLetters, Text.sameLetters, hR.letters h]

theorem isEnd_eq {line line' : CodeLine} (h : line.Respelled R line') :
    line'.isEnd = line.isEnd :=
  hR.sameLetters_eq h.head _

theorem contains_eq (h : R x y) (t : SymbolTable) : t.contains y = t.contains x := by
  rw [SymbolTable.contains, SymbolTable.contains, SymbolTable.get?, SymbolTable.get?,
    hR.upper_eq h]

/-- A question mark has no other spelling. -/
theorem eq_question_iff (h : R x y) : y = ['?'] ↔ x = ['?'] := by
  have hchar : ∀ c : Char, c.toUpper = '?' ↔ c = '?' := toUpper_eq_iff (by decide)
  have hword : ∀ t : Text, (Text.asciiUpper t = ['?']) = (t = ['?']) := by
    intro t
    simp [Text.asciiUpper, List.map_eq_cons_iff, hchar]
  exact iff_of_eq (hR.congr (f := fun t => t = ['?']) hword h)

/-- Respelled words are labels together, with respelled names. -/
theorem labelName? (h : R x y) :
    Option.Rel R (Statement.labelName? x) (Statement.labelName? y) := by
  have hchar : ∀ c : Char, c.toUpper = ':' ↔ c = ':' := toUpper_eq_iff (by decide)
  have hlast : ∀ t : Text, ((Text.asciiUpper t).getLast? = some ':') = (t.getLast? = some ':') := by
    intro t
    simp [Text.asciiUpper, List.getLast?_map, Option.map_eq_some_iff, hchar]
  have heq := hR.congr (f := fun t => t.getLast? = some ':') hlast h
  simp only [Statement.labelName?, heq]
  split
  · exact .some (hR.dropLast h)
  · exact .none

/-- **An operand is of the same kind in any spelling.** -/
theorem ofWord (h : R x y) : (Operand.ofWord x).Respelled R (Operand.ofWord y) := by
  rw [Operand.ofWord_eq, Operand.ofWord_eq, hR.register_eq h]
  cases Register.ofName? x with
  | some r => exact .register r
  | none =>
      dsimp only
      rw [hR.congr Operand.startsNumber_asciiUpper h]
      split
      · unfold Operand.numberOrName
        rw [hR.read?_eq h]
        cases Numeral.read? x with
        | some v => exact .immediate v
        | none => exact .address h
      · exact .address h

/-! ### Statements -/

variable {ws ws' : List Text}

/-- Behind a name the same directive is read. -/
theorem ofNamed (h : R x y) (hws : List.Forall₂ R ws ws') :
    (Statement.ofNamed x ws).Respelled R (Statement.ofNamed y ws') := by
  cases hws with
  | nil => exact .unknown
  | @cons w w' ws ws' hw hws =>
      simp only [Statement.ofNamed, hR.directive_eq hw]
      cases Directive.ofName? w with
      | none => exact .unknown
      | some d =>
          cases d with
          | dw => exact .define h .word hws
          | db => exact .define h .byte hws
          | ends => exact .close (.some h) hws
          | segment => exact .misplaced .segment
          | org | offset | finish => exact .unknown

/-- Respelled lines are labels together. -/
theorem ofLabelled (h : R x y) (hws : List.Forall₂ R ws ws') :
    (Statement.ofLabelled x ws).Respelled R (Statement.ofLabelled y ws') := by
  have hlabel := hR.labelName? h
  unfold Statement.ofLabelled
  generalize Statement.labelName? x = id at hlabel
  generalize Statement.labelName? y = id' at hlabel
  cases hlabel with
  | some hid => exact .label hid hws
  | none => exact hR.ofNamed h hws

/-- **Corresponding words make the same statement.** -/
theorem ofWords (h : R x y) (hws : List.Forall₂ R ws ws') :
    (Statement.ofWords x ws).Respelled R (Statement.ofWords y ws') := by
  have hlabelled := hR.ofLabelled h hws
  unfold Statement.ofWords
  rw [hR.mnemonic_eq h, hR.directive_eq h]
  cases Mnemonic.ofName? x with
  | some m => exact .instruction m hws
  | none =>
      cases Directive.ofName? x with
      | none => exact hlabelled
      | some d =>
          cases d with
          | org => exact .org hws
          | offset => exact .offset hws
          | ends => exact .close .none hws
          | segment => exact .misplaced .segment
          | dw => exact .misplaced .dw
          | db => exact .misplaced .db
          | finish => exact hlabelled

end Spelling

/-! ### Verdicts -/

section Verdicts

variable {R : Text → Text → Prop}

theorem Diagnostic.Respelled.asError {d d' : Diagnostic} (h : d.Respelled R d') :
    d.asError.Respelled R d'.asError :=
  ⟨rfl, h⟩

/-- A diagnostic that quotes nothing is its own respelling. -/
theorem Diagnostic.Respelled.self {d : Diagnostic} (h : d.text? = none) : d.Respelled R d :=
  ⟨rfl, by rw [h]; exact .none⟩

namespace Verdict.Respelled

theorem reject {d d' : Diagnostic} (h : d.Respelled R d') :
    (Verdict.reject d).Respelled R (Verdict.reject d') :=
  ⟨.cons h.asError .nil, .rejected⟩

theorem accept {e e' : Effect} (h : e.Respelled R e') :
    (Verdict.accept e).Respelled R (Verdict.accept e') :=
  ⟨.nil, h⟩

/-- Respelled findings in front of respelled verdicts. -/
theorem after {fs fs' : List Finding} (hfs : List.Forall₂ (Finding.Respelled R) fs fs')
    {v v' : Verdict} (h : v.Respelled R v') :
    (Verdict.after fs v).Respelled R (Verdict.after fs' v') :=
  ⟨List.rel_append hfs h.findings, h.effect⟩

/-- Outside the segment both verdicts are withheld. -/
theorem inside (s : State) {v v' : Verdict} (h : v.Respelled R v') :
    (s.inside v).Respelled R (s.inside v') := by
  unfold State.inside
  split
  · exact h
  · exact reject (.self rfl)

end Verdict.Respelled

/-- The word too many is quoted in its own spelling. -/
theorem surplus_respelled {ws ws' : List Text} (h : List.Forall₂ R ws ws') :
    List.Forall₂ (Finding.Respelled R) (surplus ws) (surplus ws') := by
  cases h with
  | nil => exact .nil
  | cons hw _ => exact .cons ⟨rfl, rfl, .some hw⟩ .nil

variable (hR : Spelling R)

include hR

/-- The number of a directive is the same, or the complaint about it is respelled. -/
theorem directiveNumber_respelled {x y : Text} (h : R x y) :
    SameOutcome R (directiveNumber x) (directiveNumber y) := by
  unfold directiveNumber
  rw [hR.read?_eq h]
  cases Numeral.read? x with
  | none => exact .error ⟨rfl, .some h⟩
  | some v =>
      dsimp only
      split
      · exact .ok v
      · exact .error (.self rfl)

/-- A value is the same, or the complaint about it is respelled. -/
theorem definedValue_respelled (type : DataType) {x y : Text} (h : R x y) :
    SameOutcome R (definedValue type x) (definedValue type y) := by
  unfold definedValue
  rw [hR.read?_eq h]
  simp only [hR.eq_question_iff h]
  split
  · exact .ok none
  · cases Numeral.read? x with
    | none => exact .error ⟨rfl, .some h⟩
    | some v =>
        dsimp only
        split
        · exact .ok (some v)
        · exact .error (.self rfl)

/-- The values of a definition do not depend on the spelling. -/
theorem definedValues_eq (type : DataType) {ws ws' : List Text} (h : List.Forall₂ R ws ws') :
    definedValues type ws' = definedValues type ws := by
  cases h with
  | nil => rfl
  | @cons w w' ws ws' hw hws =>
      have hvalues : List.Forall₂ Eq (definedValues type (w :: ws))
          (definedValues type (w' :: ws')) := by
        refine List.rel_map (fun x y hxy => ?_) (List.Forall₂.cons hw hws)
        have houtcome := definedValue_respelled hR type hxy
        generalize definedValue type x = outcome at houtcome
        generalize definedValue type y = outcome' at houtcome
        cases houtcome <;> rfl
      rw [List.forall₂_eq_eq_eq] at hvalues
      exact hvalues.symm

/-- The complaints about the values of a definition are respelled one by one. -/
theorem valueFindings_respelled (type : DataType) {ws ws' : List Text}
    (h : List.Forall₂ R ws ws') :
    List.Forall₂ (Finding.Respelled R) (valueFindings type ws) (valueFindings type ws') := by
  cases h with
  | nil => exact .cons ⟨rfl, .self rfl⟩ .nil
  | cons hw hws =>
      refine List.rel_filterMap (fun x y hxy => ?_) (List.Forall₂.cons hw hws)
      have houtcome := definedValue_respelled hR type hxy
      generalize definedValue type x = outcome at houtcome
      generalize definedValue type y = outcome' at houtcome
      cases houtcome with
      | ok v => exact .none
      | error hd => exact .some hd.asError

/-- The operand in a place of the line. -/
theorem operandAt_respelled {ws ws' : List Text} (h : List.Forall₂ R ws ws') (n : Nat) :
    Option.Rel (Operand.Respelled R) (ws[n]?.map Operand.ofWord) (ws'[n]?.map Operand.ofWord) := by
  induction h generalizing n with
  | nil => exact .none
  | cons hw _ ih =>
      cases n with
      | zero => exact .some (hR.ofWord hw)
      | succ n => exact ih n

omit hR in
/-- The target of a jump is respelled with the name that it was. -/
theorem asTarget_respelled (m : Mnemonic) {op1 op1' op2 op2' : Option Operand}
    (h1 : Option.Rel (Operand.Respelled R) op1 op1')
    (h2 : Option.Rel (Operand.Respelled R) op2 op2') :
    Option.Rel (Operand.Respelled R) (asTarget m op1 op2) (asTarget m op1' op2') := by
  cases h1 with
  | none => exact .none
  | some h1 =>
      cases h2 with
      | some h2 => cases h1 <;> exact .some (by constructor <;> assumption)
      | none =>
          cases h1 with
          | register r => exact .some (.register r)
          | immediate v => exact .some (.immediate v)
          | displacement h => exact .some (.displacement h)
          | address h =>
              unfold asTarget
              dsimp only
              split
              · exact .some (.displacement h)
              · exact .some (.address h)

namespace State

/-- An opening line opens the segment under the same name. -/
theorem judgeOpening_respelled (s : State) {id id' : Text} (hid : R id id') {ws ws' : List Text}
    (h : List.Forall₂ R ws ws') :
    (s.judgeOpening id ws).Respelled R (s.judgeOpening id' ws') := by
  cases h with
  | nil => exact .reject (.self rfl)
  | cons hw hws =>
      have hsurplus := surplus_respelled hws
      simp only [judgeOpening, hR.directive_eq hw, hR.isName_eq hid, hR.isKeyword_eq hid,
        hR.upper_eq hid]
      split
      · split
        · exact .after hsurplus (.accept (.opened _))
        · refine .after ?_ (.accept (.opened _))
          exact .cons ⟨rfl, rfl, .some hid⟩ hsurplus
      · exact .reject (.self rfl)

/-- A closing line closes the segment, and a name that differs is quoted as it is
spelled. -/
theorem judgeClosing_respelled (s : State) {name name' : Option Text}
    (hname : Option.Rel R name name') {ws ws' : List Text} (h : List.Forall₂ R ws ws') :
    (s.judgeClosing name ws).Respelled R (s.judgeClosing name' ws') := by
  have hsurplus := surplus_respelled h
  unfold judgeClosing
  split
  · refine .after (List.rel_append ?_ hsurplus) (.accept .closed)
    cases hname with
    | none => exact .nil
    | some hid =>
        dsimp only
        rw [hR.sameLetters_eq hid]
        split
        · exact .nil
        · exact .cons ⟨rfl, rfl, .some hid⟩ .nil
  · exact .reject ⟨rfl, .some (hR.directive .ends)⟩

/-- An origin moves the counter to the same address. -/
theorem judgeOrg_respelled {ws ws' : List Text} (h : List.Forall₂ R ws ws') :
    (judgeOrg ws).Respelled R (judgeOrg ws') := by
  cases h with
  | nil => exact .reject ⟨rfl, .some hR.nil⟩
  | @cons w w' ws ws' hw hws =>
      refine .after (surplus_respelled hws) ?_
      have hnumber := directiveNumber_respelled hR hw
      generalize directiveNumber w = outcome at hnumber
      generalize directiveNumber w' = outcome' at hnumber
      cases hnumber with
      | error hd => exact .reject hd
      | ok v =>
          dsimp only
          split
          · exact .accept (.moved _)
          · exact .reject (.self rfl)

/-- An offset moves the counter to the same address. -/
theorem judgeOffset_respelled (s : State) {ws ws' : List Text} (h : List.Forall₂ R ws ws') :
    (s.judgeOffset ws).Respelled R (s.judgeOffset ws') := by
  cases h with
  | nil => exact .reject ⟨rfl, .some hR.nil⟩
  | @cons w w' ws ws' hw hws =>
      refine .after (surplus_respelled hws) ?_
      have hnumber := directiveNumber_respelled hR hw
      generalize directiveNumber w = outcome at hnumber
      generalize directiveNumber w' = outcome' at hnumber
      cases hnumber with
      | error hd => exact .reject hd
      | ok v =>
          dsimp only
          split
          · exact .reject (.self rfl)
          · split
            · exact .reject (.self rfl)
            · split
              · exact ⟨.cons ⟨rfl, .self rfl⟩ .nil, .moved _⟩
              · exact .accept (.moved _)

/-- A label declares the same name in another spelling. -/
theorem judgeLabel_respelled (s : State) {id id' : Text} (hid : R id id') {ws ws' : List Text}
    (h : List.Forall₂ R ws ws') : (s.judgeLabel id ws).Respelled R (s.judgeLabel id' ws') := by
  unfold judgeLabel
  rw [hR.isName_eq hid, hR.contains_eq hid, hR.upper_eq hid]
  cases hname : isName id with
  | false => exact .reject ⟨rfl, .some hid⟩
  | true =>
      cases s.names.contains id with
      | true => exact .reject ⟨rfl, .some (hR.capital hname)⟩
      | false => exact .after (surplus_respelled h) (.accept (.labelled hid))

/-- A definition declares the same name in another spelling, with the same values. -/
theorem judgeDefinition_respelled (s : State) {id id' : Text} (hid : R id id') (type : DataType)
    {ws ws' : List Text} (h : List.Forall₂ R ws ws') :
    (s.judgeDefinition id type ws).Respelled R (s.judgeDefinition id' type ws') := by
  unfold judgeDefinition
  rw [hR.isName_eq hid, hR.contains_eq hid, hR.upper_eq hid, definedValues_eq hR type h]
  cases hname : isName id with
  | false => exact .reject ⟨rfl, .some hid⟩
  | true =>
      cases s.names.contains id with
      | true => exact .reject ⟨rfl, .some (hR.capital hname)⟩
      | false =>
          refine .after (valueFindings_respelled hR type h) ?_
          split
          · exact .accept (.defined hid type _)
          · exact .reject (.self rfl)

/-- An instruction is collected with respelled operands. -/
theorem judgeInstruction_respelled (s : State) (m : Mnemonic) {ws ws' : List Text}
    (h : List.Forall₂ R ws ws') :
    (s.judgeInstruction m ws).Respelled R (s.judgeInstruction m ws') := by
  have hop2 := operandAt_respelled hR h 1
  have hop1 := asTarget_respelled m (operandAt_respelled hR h 0) hop2
  refine .after (surplus_respelled (List.forall₂_drop 2 h)) ?_
  dsimp only
  rw [Instruction.lengthOf, Instruction.lengthOf, map_kind_eq_of_rel hop1, map_kind_eq_of_rel hop2]
  split
  · exact .reject (.self rfl)
  · split
    · exact .accept (.collected m ⟨rfl, hop1, hop2, rfl, rfl⟩)
    · exact .reject (.self rfl)

/-- **Respelled statements get respelled verdicts**, in every state. -/
theorem judgeStatement_respelled (s : State) {st st' : Statement} (h : st.Respelled R st') :
    (s.judgeStatement st).Respelled R (s.judgeStatement st') := by
  cases h with
  | instruction m h => exact .inside s (s.judgeInstruction_respelled hR m h)
  | org h => exact .inside s (judgeOrg_respelled hR h)
  | offset h => exact .inside s (s.judgeOffset_respelled hR h)
  | close hname h => exact s.judgeClosing_respelled hR hname h
  | label hid h => exact .inside s (s.judgeLabel_respelled hR hid h)
  | define hid type h => exact .inside s (s.judgeDefinition_respelled hR hid type h)
  | misplaced d => exact .reject ⟨rfl, .some (hR.directive d)⟩
  | unknown => exact .reject (.self rfl)

/-- **Corresponding lines get corresponding verdicts.** -/
theorem judge_respelled (s : State) {line line' : CodeLine} (h : line.Respelled R line') :
    (s.judge line).Respelled R (s.judge line') := by
  have hstatement := s.judgeStatement_respelled hR (hR.ofWords h.head h.rest)
  unfold judge
  cases s.phase with
  | pending => exact s.judgeOpening_respelled hR h.head h.rest
  | opened => exact hstatement
  | closed => exact hstatement

end State

end Verdicts

/-! ### Runs -/

namespace Spelling

variable {R : Text → Text → Prop} (hR : Spelling R)

include hR

/-- **Corresponding effects lead to the same state**, since names are filed under
their capital forms. -/
theorem apply_eq (s : State) {e e' : Effect} (h : e.Respelled R e') : s.apply e' = s.apply e := by
  have hdeclare : ∀ {x y : Text} (symbol : Symbol), R x y →
      s.names.declare y symbol = s.names.declare x symbol := by
    intro x y symbol hxy
    rw [SymbolTable.declare, SymbolTable.declare, SymbolTable.insert, SymbolTable.insert,
      hR.contains_eq hxy, hR.upper_eq hxy]
  have hcounter := h.counterAfter_eq (s := s) (t := s) rfl
  cases h with
  | labelled hid =>
      simp only [State.apply, hcounter, State.namesAfter, Effect.declared?, hdeclare _ hid]
  | defined hid type values =>
      simp only [State.apply, hcounter, State.namesAfter, Effect.declared?, hdeclare _ hid]
  | collected m h =>
      simp only [State.apply, hcounter, State.namesAfter, Effect.declared?]
  | _ => rfl

/-- **Respelled programs run alike**: their records are respelled, and they end in the
same state. -/
theorem run_respelled {lines lines' : List CodeLine}
    (h : List.Forall₂ (CodeLine.Respelled R) lines lines') (s : State) :
    List.Forall₂ (Record.Respelled R) (s.run lines) (s.run lines') ∧
      s.finish (s.run lines') = s.finish (s.run lines) := by
  induction h generalizing s with
  | nil => exact ⟨.nil, rfl⟩
  | @cons line line' lines lines' hline _ ih =>
      have hverdict := s.judge_respelled hR hline
      have hnext : (s.scan line').next = (s.scan line).next := hR.apply_eq s hverdict.effect
      obtain ⟨hrecords, hfinish⟩ := ih (s.scan line).next
      rw [State.run_cons, State.run_cons, State.finish_cons, State.finish_cons, hnext]
      exact ⟨.cons ⟨hline.number, rfl, hverdict.findings, hverdict.effect⟩ hrecords, hfinish⟩

/-- Respelled programs end on the same line. -/
theorem programLines_respelled {lines lines' : List Line}
    (h : List.Forall₂ (CodeLine.Respelled R) (codeLines lines) (codeLines lines')) :
    List.Forall₂ (CodeLine.Respelled R) (programLines lines) (programLines lines') ∧
      endLine lines' = endLine lines := by
  unfold programLines endLine
  generalize codeLines lines = code at h ⊢
  generalize codeLines lines' = code' at h ⊢
  induction h with
  | nil => exact ⟨.nil, rfl⟩
  | @cons line line' rest rest' hline _ ih =>
      rw [List.takeWhile_cons, List.takeWhile_cons, List.find?_cons, List.find?_cons,
        hR.isEnd_eq hline]
      cases line.isEnd with
      | true => exact ⟨.nil, congrArg some hline.number⟩
      | false => exact ⟨.cons hline ih.1, ih.2⟩

variable {source source' : Text}

/-- Sources with corresponding words lead to the same state. -/
theorem final_eq (h : List.Forall₂ (CodeLine.Respelled R) (codeLines (splitLines source))
      (codeLines (splitLines source'))) :
    (Layout.ofSource source').final = (Layout.ofSource source).final :=
  (hR.run_respelled (hR.programLines_respelled h).1 {}).2

/-- **Sources with corresponding words are laid out alike.** -/
theorem respelled_ofSource (h : List.Forall₂ (CodeLine.Respelled R) (codeLines (splitLines source))
      (codeLines (splitLines source')))
    (hlength : (splitLines source').length = (splitLines source).length) :
    (Layout.ofSource source).Respelled R (Layout.ofSource source') where
  records := (hR.run_respelled (hR.programLines_respelled h).1 {}).1
  counter := congrArg State.counter (hR.final_eq h)
  segmentName := congrArg State.segmentName (hR.final_eq h)
  names := by
    intro x y hxy
    rw [Layout.names, Layout.names, hR.final_eq h, SymbolTable.get?, SymbolTable.get?,
      hR.upper_eq hxy]
  endLine := (hR.programLines_respelled h).2
  length := hlength

end Spelling

end SegmentAssembler
