import SegmentAssembler.Proofs.AddressAccounting
import SegmentAssembler.Proofs.SpelledRuns
import SegmentAssembler.Proofs.StatementForms
import SegmentAssembler.Proofs.TableConsistency
import SegmentAssembler.Proofs.WordRewriting

/-!
# New names for old ones

The names of a program are its own affair.  They are given new names, in every
place where they are declared or referred to, and nowhere else: the name of the
segment and the values of data may look just like them.

    x SEGMENT             x SEGMENT
    x:                    again:
      MOV AX, ffh           MOV AX, count
      JA x                  JA again
    ffh DW FFH            count DW FFH
    x ENDS                x ENDS

A new name must be one that can be declared and that is taken neither for a
register nor for a keyword, and new names of different names must differ in more
than the case of their letters.

* `SymbolTable.get?_renamed` — the renamed table finds under the new name what
  the table finds under the old one;
* `State.Grants.renamed` — a line that is taken without an error is taken under
  the new names, with a corresponding effect;
* `State.run_renamed` — so are whole runs;
* `Layout.respelled_renameSource` — so the program with new names is laid out as
  before, and its table of names is the old one with the new names in it.
-/

namespace SegmentAssembler

/-! ### New names -/

/-- New names for the names of a table, given under the capital forms of these:
each can be declared and is neither register nor keyword, and no two are one name. -/
structure SymbolTable.Renaming (names : SymbolTable) (ρ : Text → Text) : Prop where
  name : ∀ key ∈ names.keys, isName (ρ key) = true
  register : ∀ key ∈ names.keys, Register.ofName? (ρ key) = none
  keyword : ∀ key ∈ names.keys, isKeyword (ρ key) = false
  apart : ∀ key ∈ names.keys, ∀ key' ∈ names.keys,
    Text.upper (ρ key) = Text.upper (ρ key') → key = key'

namespace SymbolTable

/-- The new name of a word that is a declared name. -/
def newName? (names : SymbolTable) (ρ : Text → Text) (word : Text) : Option Text :=
  if names.contains word then some (ρ (Text.upper word)) else none

/-- The word under the new names. -/
def newWord (names : SymbolTable) (ρ : Text → Text) (word : Text) : Text :=
  (names.newName? ρ word).getD word

/-- The table with the new names in the places of the old ones. -/
def renamed (t : SymbolTable) (ρ : Text → Text) : SymbolTable :=
  ⟨t.entries.map fun entry => (Text.upper (ρ entry.1), entry.2)⟩

end SymbolTable

/-- The statement has places where names of the program stand. -/
def Statement.holdsNames : Statement → Bool
  | .instruction _ _ | .label _ _ | .define _ _ _ => true
  | _ => false

/-- What becomes of the words of a line: the operands of an instruction, the name
of a label and the name of data get their new names.  The line that ends the
program stays as it is. -/
def nameEdits (names : SymbolTable) (ρ : Text → Text) (head : Text) (rest : List Text) : Edits :=
  if Directive.ofName? head = some .finish then []
  else
    match Statement.ofWords head rest with
    | .instruction _ operands => none :: operands.map (names.newName? ρ)
    | .label id _ => [(names.newName? ρ id).map (· ++ [':'])]
    | .define id _ _ => [names.newName? ρ id]
    | _ => []

/-- A line under the new names. -/
def renameLine (names : SymbolTable) (ρ : Text → Text) (t : Text) : Text :=
  match words t with
  | [] => t
  | head :: rest => rewriteWords (nameEdits names ρ head rest) t

/-- A source under the new names. -/
def renameSource (names : SymbolTable) (ρ : Text → Text) (source : Text) : Text :=
  mapLines (renameLine names ρ) source

/-- The words of a line under the new names. -/
def CodeLine.renamed (names : SymbolTable) (ρ : Text → Text) (line : CodeLine) : CodeLine :=
  match nameEdits names ρ line.head line.rest with
  | [] => line
  | e :: es => ⟨line.number, e.getD line.head, Edits.apply es line.rest⟩

/-- A word and its new name. -/
def Renames (names : SymbolTable) (ρ : Text → Text) (x y : Text) : Prop :=
  names.contains x = true ∧ y = ρ (Text.upper x)

/-! ### Tables -/

namespace SymbolTable

variable {names t : SymbolTable} {ρ : Text → Text}

theorem contains_iff {name : Text} : t.contains name = true ↔ Text.upper name ∈ t.keys := by
  rw [← not_iff_not, Bool.not_eq_true, contains_eq_false_iff]

/-- A declared name gets the new name of its key. -/
theorem newWord_of_contains {word : Text} (h : names.contains word = true) :
    names.newWord ρ word = ρ (Text.upper word) := by
  simp [newWord, newName?, h]

/-- Every other word stays. -/
theorem newWord_of_not_contains {word : Text} (h : names.contains word = false) :
    names.newWord ρ word = word := by
  simp [newWord, newName?, h]

/-- A look-up under keys that are renamed apart. -/
theorem lookup_map_key {α : Type} {f : Text → Text} {entries : List (Text × α)} {key : Text}
    (h : ∀ entry ∈ entries, f key = f entry.1 → key = entry.1) :
    (entries.map fun entry => (f entry.1, entry.2)).lookup (f key) = entries.lookup key := by
  induction entries with
  | nil => rfl
  | cons entry rest ih =>
      rw [List.forall_mem_cons] at h
      have hsame : (f key == f entry.1) = (key == entry.1) := by
        rw [Bool.eq_iff_iff, beq_iff_eq, beq_iff_eq]
        exact ⟨h.1, congrArg f⟩
      rw [List.map_cons, List.lookup_cons, List.lookup_cons, hsame, ih h.2]

/-- **The renamed table finds under the new name what the table finds under the
old one.** -/
theorem get?_renamed (hρ : names.Renaming ρ) (hkeys : t.keys ⊆ names.keys) {x y : Text}
    (hxy : Renames names ρ x y) : (t.renamed ρ).get? y = t.get? x := by
  obtain ⟨hx, rfl⟩ := hxy
  refine lookup_map_key (f := fun key => Text.upper (ρ key)) fun entry hentry heq => ?_
  exact hρ.apart _ (contains_iff.mp hx) _ (hkeys (List.mem_map_of_mem hentry)) heq

/-- A new name is taken exactly if the old one was. -/
theorem contains_renamed (hρ : names.Renaming ρ) (hkeys : t.keys ⊆ names.keys) {x y : Text}
    (hxy : Renames names ρ x y) : (t.renamed ρ).contains y = t.contains x := by
  rw [contains, contains, get?_renamed hρ hkeys hxy]

/-- Declaring a name and renaming it is declaring the new name. -/
theorem declare_renamed (hρ : names.Renaming ρ) (hkeys : t.keys ⊆ names.keys) {x y : Text}
    (hxy : Renames names ρ x y) (symbol : Symbol) :
    (t.renamed ρ).declare y symbol = (t.declare x symbol).renamed ρ := by
  have hcontains := contains_renamed hρ hkeys hxy
  obtain ⟨-, rfl⟩ := hxy
  cases ht : t.contains x with
  | true => rw [declare_of_contains ht, declare_of_contains (hcontains.trans ht)]
  | false =>
      rw [declare, declare, insert_of_not_contains ht, insert_of_not_contains (hcontains.trans ht)]
      simp [renamed]

/-- Declaring a name of the table leads to no key outside it. -/
theorem keys_declare_subset {x : Text} (hkeys : t.keys ⊆ names.keys)
    (hx : names.contains x = true) (symbol : Symbol) :
    (t.declare x symbol).keys ⊆ names.keys := by
  cases ht : t.contains x with
  | true => rwa [declare_of_contains ht]
  | false =>
      rw [keys, entries_declare_of_not_contains ht, List.map_append]
      refine List.append_subset.mpr ⟨hkeys, ?_⟩
      intro key hkey
      obtain rfl : key = Text.upper x := by simpa using hkey
      exact contains_iff.mp hx

end SymbolTable

/-! ### Words -/

/-- **A name is a word.** -/
theorem isWord_of_isName {id : Text} (h : isName id = true) : IsWord id := by
  refine ⟨fun hnil => by simp [hnil, isName] at h, fun c hc => ?_⟩
  have hrange := toNat_of_isNamePart (isNamePart_of_mem h c hc)
  refine ⟨?_, ?_, Text.isBlank_of_visible (by omega) (by omega)⟩
  · rintro rfl
    exact absurd hrange (by decide)
  · rintro rfl
    exact absurd hrange (by decide)

theorem isWord_append_colon {id : Text} (h : IsWord id) : IsWord (id ++ [':']) := by
  refine ⟨by simp, List.forall_mem_append.mpr ⟨h.2, ?_⟩⟩
  exact List.forall_mem_singleton.mpr (by decide)

/-! ### Lines -/

section Lines

variable {names : SymbolTable} {ρ : Text → Text} {n : Nat} {head : Text} {rest : List Text}

/-- New names for words are put in word by word. -/
theorem Edits.apply_map (f : Text → Option Text) (ws : List Text) :
    Edits.apply (ws.map f) ws = ws.map fun w => (f w).getD w := by
  induction ws with
  | nil => rfl
  | cons w ws ih => rw [List.map_cons, Edits.apply_cons, ih, List.map_cons]

/-- New names can stand in a line. -/
theorem areWords_nameEdits (hρ : names.Renaming ρ) (head : Text) (rest : List Text) :
    (nameEdits names ρ head rest).AreWords := by
  have hnew : ∀ word, ∀ x ∈ names.newName? ρ word, IsWord x := by
    intro word x hx
    unfold SymbolTable.newName? at hx
    split at hx
    · rename_i hword
      cases hx
      exact isWord_of_isName (hρ.name _ (SymbolTable.contains_iff.mp hword))
    · cases hx
  unfold nameEdits
  split
  · exact nofun
  · split
    · refine List.forall_mem_cons.mpr ⟨nofun, ?_⟩
      intro e he x hx
      obtain ⟨word, -, rfl⟩ := List.mem_map.mp he
      exact hnew word x hx
    · refine List.forall_mem_singleton.mpr ?_
      intro x hx
      obtain ⟨y, hy, rfl⟩ := Option.map_eq_some_iff.mp hx
      exact isWord_append_colon (hnew _ y hy)
    · exact List.forall_mem_singleton.mpr (hnew _)
    · exact nofun

theorem isLine_renameLine (hρ : names.Renaming ρ) {t : Text} (h : t.IsLine) :
    (renameLine names ρ t).IsLine := by
  unfold renameLine
  split
  · exact h
  · exact isLine_rewriteWords (areWords_nameEdits hρ _ _) h

/-- A line is renamed to an empty one only if it was empty. -/
theorem renameLine_eq_nil_iff (hρ : names.Renaming ρ) {t : Text} :
    renameLine names ρ t = [] ↔ t = [] := by
  unfold renameLine
  split
  · exact Iff.rfl
  · exact rewriteWords_eq_nil_iff (areWords_nameEdits hρ _ _)

/-- **The words of a line under the new names.** -/
theorem Line.code?_renameLine (hρ : names.Renaming ρ) {t : Text} (h : '\n' ∉ t) :
    (Line.mk n (renameLine names ρ t)).code? =
      (Line.mk n t).code?.map (CodeLine.renamed names ρ) := by
  cases hwords : words t with
  | nil => simp [Line.code?, renameLine, hwords]
  | cons head rest =>
      have hnew := words_rewriteWords h (areWords_nameEdits hρ head rest)
      simp only [Line.code?, renameLine, hwords, hnew, Option.map_some, CodeLine.renamed]
      cases nameEdits names ρ head rest with
      | nil => rfl
      | cons e es => rfl

/-- The lines of a renamed source are its lines, renamed one by one. -/
theorem splitLines_renameSource (hρ : names.Renaming ρ) (source : Text) :
    splitLines (renameSource names ρ source) =
      (splitLines source).map fun line => ⟨line.number, renameLine names ρ line.text⟩ :=
  splitLines_mapLines (fun _ => isLine_renameLine hρ) source

/-- The lines with words on them are renamed one by one. -/
theorem codeLines_renameSource (hρ : names.Renaming ρ) (source : Text) :
    codeLines (splitLines (renameSource names ρ source)) =
      (codeLines (splitLines source)).map (CodeLine.renamed names ρ) := by
  rw [splitLines_renameSource hρ, codeLines, codeLines, List.filterMap_map, List.map_filterMap]
  refine List.filterMap_congr fun line hline => ?_
  exact Line.code?_renameLine hρ (isLine_of_mem_splitLines hline).newline_not_mem

/-! ### What becomes of a line -/

/-- A line without a place for names stays as it is. -/
theorem renamed_of_not_holdsNames (h : (Statement.ofWords head rest).holdsNames = false) :
    CodeLine.renamed names ρ ⟨n, head, rest⟩ = ⟨n, head, rest⟩ := by
  have hnone : nameEdits names ρ head rest = [] := by
    unfold nameEdits
    split
    · rfl
    · cases hwords : Statement.ofWords head rest with
      | instruction m operands => simp [hwords, Statement.holdsNames] at h
      | label id more => simp [hwords, Statement.holdsNames] at h
      | define id type values => simp [hwords, Statement.holdsNames] at h
      | _ => rfl
  simp only [CodeLine.renamed, hnone]

/-- An instruction keeps its mnemonic, and its operands are renamed. -/
theorem renamed_of_mnemonic {m : Mnemonic} (h : Mnemonic.ofName? head = some m) :
    CodeLine.renamed names ρ ⟨n, head, rest⟩ = ⟨n, head, rest.map (names.newWord ρ)⟩ := by
  have hfinish : Directive.ofName? head ≠ some .finish := by
    intro hdirective
    rw [Statement.mnemonic_none_of_directive hdirective] at h
    cases h
  simp only [CodeLine.renamed, nameEdits, if_neg hfinish, Statement.ofWords_of_mnemonic h,
    Edits.apply_map]
  rfl

/-- A label keeps its colon and gets the new name. -/
theorem renamed_label (id : Text) :
    CodeLine.renamed names ρ ⟨n, id ++ [':'], rest⟩ = ⟨n, names.newWord ρ id ++ [':'], rest⟩ := by
  have hfinish : Directive.ofName? (id ++ [':']) ≠ some .finish := by
    rw [(isKeyword_eq_false_iff.mp (isKeyword_append_colon id)).1]
    exact nofun
  simp only [CodeLine.renamed, nameEdits, if_neg hfinish, Statement.ofWords_label,
    Edits.apply_nil, SymbolTable.newWord]
  cases names.newName? ρ id with
  | none => rfl
  | some x => rfl

/-- A definition gets the new name and keeps its values. -/
theorem renamed_of_define {type : DataType} {values : List Text}
    (hfinish : Directive.ofName? head ≠ some .finish)
    (h : Statement.ofWords head rest = .define head type values) :
    CodeLine.renamed names ρ ⟨n, head, rest⟩ = ⟨n, names.newWord ρ head, rest⟩ := by
  simp only [CodeLine.renamed, nameEdits, if_neg hfinish, h]
  rfl

/-- The first word of a line says whether it ends the program, and a new name
never does. -/
theorem isEnd_renamed (hρ : names.Renaming ρ) (line : CodeLine) :
    (line.renamed names ρ).isEnd = line.isEnd := by
  obtain ⟨n, head, rest⟩ := line
  by_cases hfinish : Directive.ofName? head = some .finish
  · simp [CodeLine.renamed, nameEdits, hfinish]
  · have hend : (CodeLine.mk n head rest).isEnd = false := CodeLine.isEnd_eq_false_iff.mpr hfinish
    rw [hend, CodeLine.isEnd_eq_false_iff]
    have hsays := Statement.says_ofWords hfinish rest
    cases hwords : Statement.ofWords head rest with
    | instruction m operands =>
        rw [hwords] at hsays
        cases hsays with
        | instruction hmnemonic =>
            rw [renamed_of_mnemonic hmnemonic]
            exact hfinish
    | label id more =>
        rw [hwords] at hsays
        cases hsays with
        | label hhead =>
            rw [hhead, renamed_label, (isKeyword_eq_false_iff.mp (isKeyword_append_colon _)).1]
            exact nofun
    | define id type values =>
        rw [hwords] at hsays
        cases hsays with
        | define hkeyword hrest hdirective =>
            rw [renamed_of_define hfinish hwords]
            cases hhead : names.contains head with
            | true =>
                have hnew := hρ.keyword _ (SymbolTable.contains_iff.mp hhead)
                rw [SymbolTable.newWord_of_contains hhead, (isKeyword_eq_false_iff.mp hnew).1]
                exact nofun
            | false =>
                rw [SymbolTable.newWord_of_not_contains hhead]
                exact hfinish
    | _ =>
        rw [renamed_of_not_holdsNames (by rw [hwords]; rfl)]
        exact hfinish

theorem number_renamed (line : CodeLine) : (line.renamed names ρ).number = line.number := by
  unfold CodeLine.renamed
  split <;> rfl

/-- A renamed program ends where it ended. -/
theorem programLines_renameSource (hρ : names.Renaming ρ) (source : Text) :
    programLines (splitLines (renameSource names ρ source)) =
        (programLines (splitLines source)).map (CodeLine.renamed names ρ) ∧
      endLine (splitLines (renameSource names ρ source)) = endLine (splitLines source) := by
  have hend : CodeLine.isEnd ∘ CodeLine.renamed names ρ = CodeLine.isEnd :=
    funext (isEnd_renamed hρ)
  have hgoes : (fun line => !CodeLine.isEnd line) ∘ CodeLine.renamed names ρ =
      fun line => !line.isEnd := funext fun line => congrArg not (isEnd_renamed hρ line)
  unfold programLines endLine
  rw [codeLines_renameSource hρ, List.takeWhile_map, List.find?_map, hend, hgoes, Option.map_map]
  exact ⟨rfl, congrArg (Option.map · _) (funext number_renamed)⟩

end Lines

/-! ### Operands -/

namespace Operand

/-- A word is a register, a number or the address of a name. -/
theorem ofWord_cases (word : Text) :
    (∃ r, ofWord word = .register r) ∨ (∃ v, ofWord word = .immediate v) ∨
      ofWord word = .address word := by
  rw [ofWord_eq]
  unfold numberOrName
  split
  · exact Or.inl ⟨_, rfl⟩
  · split
    · split
      · exact Or.inr (Or.inl ⟨_, rfl⟩)
      · exact Or.inr (Or.inr rfl)
    · exact Or.inr (Or.inr rfl)

theorem toNat_of_isDecimalDigit {c : Char} (h : isDecimalDigit c = true) :
    48 ≤ c.toNat ∧ c.toNat ≤ 57 := by
  have hvalue : Numeral.digitValue c < 10 := by simpa [isDecimalDigit, Numeral.isDigit] using h
  unfold Numeral.digitValue at hvalue
  split at hvalue
  · rename_i hrange
    exact hrange
  · split at hvalue
    · omega
    · split at hvalue
      · omega
      · omega

/-- A word whose capital form is a name does not begin as a number does. -/
theorem startsNumber_of_isCapitalName {word : Text} (h : isCapitalName (Text.upper word) = true) :
    startsNumber word = false := by
  cases word with
  | nil => rfl
  | cons c rest =>
      by_contra hnumber
      have hfirst : c.toNat = 45 ∨ (48 ≤ c.toNat ∧ c.toNat ≤ 57) := by
        by_cases hc : c = '-'
        · exact Or.inl (hc ▸ rfl)
        · right
          apply toNat_of_isDecimalDigit
          simpa [startsNumber, hc] using hnumber
      -- neither a minus sign nor a digit has another capital form, or is one
      have halpha : c.isAlpha = false := by
        cases halpha : c.isAlpha with
        | false => rfl
        | true =>
            simp only [Char.isAlpha, Char.isUpper, Char.isLower, Bool.or_eq_true,
              Bool.and_eq_true, decide_eq_true_eq, UInt32.le_iff_toNat_le, ge_iff_le] at halpha
            have hcode : c.toNat = c.val.toNat := rfl
            have hletters : 'A'.val.toNat = 65 ∧ 'a'.val.toNat = 97 := ⟨rfl, rfl⟩
            omega
      have hunderscore : c ≠ '_' := by
        rintro rfl
        exact absurd hfirst (by decide)
      have hcapital : Text.capital c = [c] := by
        rw [Text.capital_of_ascii (by omega), toUpper_of_not_isAlpha halpha]
      rw [Text.upper_cons, hcapital] at h
      simp only [Char.isAlpha, Bool.or_eq_false_iff] at halpha
      simp [isCapitalName, halpha.1, hunderscore] at h

/-- **A declared name is read as a name**, unless it is a register. -/
theorem ofWord_of_isCapitalName {word : Text} (h : isCapitalName (Text.upper word) = true)
    (hregister : Register.ofName? (Text.upper word) = none) : ofWord word = .address word := by
  have hnone : Register.ofName? word = none := by
    cases hword : Register.ofName? word with
    | none => rfl
    | some r =>
        have hname := Register.ofName?_eq_some_iff.mp hword
        have hcapital : Text.upper word = r.name := by
          rw [← Text.upper_asciiUpper, hname]
          cases r <;> decide
        have hsome : Register.ofName? r.name = some r := by cases r <;> decide
        rw [hcapital, hsome] at hregister
        cases hregister
  simp [ofWord_eq, hnone, startsNumber_of_isCapitalName h]

/-- A name that is no register is an address. -/
theorem ofWord_of_isName {word : Text} (h : isName word = true)
    (hregister : Register.ofName? word = none) : ofWord word = .address word := by
  refine ofWord_of_isCapitalName (isCapitalName_upper h) ?_
  rw [Text.upper_of_isName h, Register.ofName?, Text.asciiUpper_asciiUpper]
  exact hregister

end Operand

/-- The words of a table that are read as names: in capitals, and no registers. -/
structure SymbolTable.Readable (names : SymbolTable) : Prop where
  capital : ∀ key ∈ names.keys, isCapitalName key = true
  register : ∀ key ∈ names.keys, Register.ofName? key = none

section Operands

variable {names : SymbolTable} {ρ : Text → Text}

/-- **An operand under the new names** is the same operand, if it is declared in
case that it is a name. -/
theorem Operand.ofWord_newWord (hnames : names.Readable) (hρ : names.Renaming ρ) {word : Text}
    (h : ofWord word = .address word → names.contains word = true) :
    (ofWord word).Respelled (Renames names ρ) (ofWord (names.newWord ρ word)) := by
  cases hword : names.contains word with
  | true =>
      have hkey := SymbolTable.contains_iff.mp hword
      rw [SymbolTable.newWord_of_contains hword,
        ofWord_of_isCapitalName (hnames.capital _ hkey) (hnames.register _ hkey),
        ofWord_of_isName (hρ.name _ hkey) (hρ.register _ hkey)]
      exact .address ⟨hword, rfl⟩
  | false =>
      rw [SymbolTable.newWord_of_not_contains hword]
      rcases ofWord_cases word with ⟨r, hr⟩ | ⟨v, hv⟩ | haddress
      · rw [hr]
        exact .register r
      · rw [hv]
        exact .immediate v
      · rw [h haddress] at hword
        cases hword

end Operands

/-! ### Effects -/

/-- The instruction has the name among its operands. -/
def Instruction.Mentions (i : Instruction) (name : Text) : Prop :=
  i.op1 = some (.address name) ∨ i.op1 = some (.displacement name) ∨ i.op2 = some (.address name)

/-- The names that an effect speaks of. -/
inductive Effect.Mentions : Effect → Text → Prop
  | labelled (id : Text) : Mentions (.labelled id) id
  | defined (id : Text) (type : DataType) (values : List (Option Int)) :
      Mentions (.defined id type values) id
  | collected (m : Mnemonic) {i : Instruction} {name : Text} (h : i.Mentions name) :
      Mentions (.collected m i) name

/-- What an encoded instruction mentions has been found in the table. -/
theorem Instruction.contains_of_encode {names : SymbolTable} {i : Instruction} {m : Mnemonic}
    (hformed : i.Formed m) {e : Encoded} (hcode : i.encode names = .ok e) {name : Text}
    (h : i.Mentions name) : names.contains name = true := by
  have hfound : ∀ {symbol}, names.get? name = some symbol → names.contains name = true := by
    intro symbol hsymbol
    rw [SymbolTable.contains, hsymbol]
    rfl
  obtain ⟨op1, p, q, hop1, -, -, hq, -⟩ := hformed.exists_composed hcode
  unfold Instruction.Mentions at h
  rw [hop1] at h
  generalize i.op2 = op2 at hq h
  rcases h with h | h | rfl
  · cases h
    cases hq with
    | store b hname => exact hfound hname
  · cases h
    cases hq with
    | jump hname hkind hrange => exact hfound hname
  · cases hq with
    | load a hname => exact hfound hname

/-- **Without errors, all names that a program speaks of are declared.** -/
theorem Layout.contains_of_mentions {source : Text}
    (hclean : (ofSource source).report.hasErrors = false) {r : Record}
    (hr : r ∈ (ofSource source).records) {name : Text} (h : r.verdict.effect.Mentions name) :
    (ofSource source).names.contains name = true := by
  have hdeclared : ∀ {kind}, r.verdict.effect.declared? = some (name, kind) →
      (ofSource source).names.contains name = true := by
    intro kind hkind
    rw [SymbolTable.contains_iff, SymbolTable.keys, entries_names]
    refine List.mem_map.mpr ⟨(Text.upper name, ⟨kind, r.before.counter⟩), ?_, rfl⟩
    exact List.mem_filterMap.mpr ⟨r, hr, by rw [Record.declaration?, hkind]; rfl⟩
  generalize heffect : r.verdict.effect = e at h
  cases h with
  | labelled => exact hdeclared (by rw [heffect]; rfl)
  | defined type values => exact hdeclared (by rw [heffect]; rfl)
  | @collected m i name hmentions =>
      have hitem : (r.line.number, Item.instruction i) ∈ (ofSource source).items :=
        mem_items_iff.mpr ⟨r, hr, rfl, by rw [heffect]; rfl⟩
      have hadmits := admits_of_mem_records hr
      rw [heffect] at hadmits
      obtain ⟨e, he⟩ := exists_encode_of_no_errors hclean _ hitem
      exact Instruction.contains_of_encode hadmits.formed.1 he hmentions

/-! ### Runs -/

namespace State

/-- The state with the new names in its table. -/
def renamed (s : State) (ρ : Text → Text) : State := { s with names := s.names.renamed ρ }

section Runs

variable {names : SymbolTable} {ρ : Text → Text} {s : State}

/-- **Corresponding effects lead to states that differ in the names only.** -/
theorem apply_renamed (hρ : names.Renaming ρ) (hkeys : s.names.keys ⊆ names.keys) {e e' : Effect}
    (h : e.Respelled (Renames names ρ) e') :
    (s.renamed ρ).apply e' = (s.apply e).renamed ρ := by
  have hcounter : counterAfter { s with names := s.names.renamed ρ } e' = s.counterAfter e :=
    h.counterAfter_eq rfl
  cases h with
  | labelled hid =>
      simp only [State.apply, State.namesAfter, Effect.declared?, renamed, hcounter,
        SymbolTable.declare_renamed hρ hkeys hid]
  | defined hid type values =>
      simp only [State.apply, State.namesAfter, Effect.declared?, renamed, hcounter,
        SymbolTable.declare_renamed hρ hkeys hid]
  | collected m h =>
      simp only [State.apply, State.namesAfter, Effect.declared?, renamed, hcounter]
  | _ => rfl

/-- An effect that mentions names of the table leads to no key outside it. -/
theorem keys_apply_subset (hkeys : s.names.keys ⊆ names.keys) {e : Effect}
    (h : ∀ name, e.Mentions name → names.contains name = true) :
    (s.apply e).names.keys ⊆ names.keys := by
  rw [names_apply]
  cases e with
  | labelled id => exact SymbolTable.keys_declare_subset hkeys (h id (.labelled id)) _
  | defined id type values =>
      exact SymbolTable.keys_declare_subset hkeys (h id (.defined id type values)) _
  | _ => exact hkeys

/-- The operands of an instruction under the new names. -/
theorem operandAt_newWord (hnames : names.Readable) (hρ : names.Renaming ρ) {words : List Text}
    {n : Nat} (h : ∀ name, words[n]?.map Operand.ofWord = some (.address name) →
      names.contains name = true) :
    Option.Rel (Operand.Respelled (Renames names ρ)) (words[n]?.map Operand.ofWord)
      ((words.map (names.newWord ρ))[n]?.map Operand.ofWord) := by
  rw [List.getElem?_map]
  cases hword : words[n]? with
  | none => exact .none
  | some word =>
      refine .some (Operand.ofWord_newWord hnames hρ fun haddress => h word ?_)
      rw [hword, Option.map_some, haddress]

/-- Values that are all in order leave at most the warning that there is none. -/
theorem valueFindings_self {R : Text → Text → Prop} {type : DataType} {words : List Text}
    (h : ∀ word ∈ words, IsValue type word) :
    List.Forall₂ (Finding.Respelled R) (valueFindings type words) (valueFindings type words) := by
  cases words with
  | nil => exact .cons ⟨rfl, .self rfl⟩ .nil
  | cons first rest =>
      have hnone : valueFindings type (first :: rest) = [] := by
        refine List.filterMap_eq_nil_iff.mpr fun word hword => ?_
        obtain ⟨v, hv⟩ := definedValue_ok_iff.mpr (h word hword)
        simp [hv]
      rw [hnone]
      exact .nil

/-- A name is mentioned as an address or as the target of a jump. -/
theorem asTarget_address (m : Mnemonic) (name : Text) (op2 : Option Operand) :
    asTarget m (some (.address name)) op2 = some (.address name) ∨
      asTarget m (some (.address name)) op2 = some (.displacement name) := by
  cases op2 with
  | some op2 => exact Or.inl rfl
  | none =>
      cases hjump : m.isJump with
      | true => exact Or.inr (by simp [asTarget, hjump])
      | false => exact Or.inl (by simp [asTarget, hjump])

/-- An instruction that is taken is taken under the new names. -/
theorem grants_instruction_renamed (hnames : names.Readable) (hρ : names.Renaming ρ)
    {m : Mnemonic} {words : List Text} {v : Verdict} (hv : s.Grants (.instruction m words) v)
    (hmentions : ∀ name, v.effect.Mentions name → names.contains name = true) :
    ∃ v', (s.renamed ρ).Grants (.instruction m (words.map (names.newWord ρ))) v' ∧
      v.Respelled (Renames names ρ) v' := by
  cases hv with
  | @instruction _ _ template op1 op2 hcount hop1 hop2 hrow htop =>
      have hrel2 : Option.Rel (Operand.Respelled (Renames names ρ)) op2
          ((words.map (names.newWord ρ))[1]?.map Operand.ofWord) := by
        rw [hop2]
        refine operandAt_newWord hnames hρ fun name hname => hmentions name (.collected m ?_)
        exact Or.inr (Or.inr (hop2.trans hname))
      have hrel1 : Option.Rel (Operand.Respelled (Renames names ρ)) op1
          (asTarget m ((words.map (names.newWord ρ))[0]?.map Operand.ofWord)
            ((words.map (names.newWord ρ))[1]?.map Operand.ofWord)) := by
        rw [hop1]
        refine asTarget_respelled m (operandAt_newWord hnames hρ fun name hname => ?_) hrel2
        have htarget : op1 = some (.address name) ∨ op1 = some (.displacement name) := by
          rw [hop1, hname]
          exact asTarget_address m name op2
        exact hmentions name (.collected m (htarget.elim Or.inl fun h => Or.inr (Or.inl h)))
      -- the row of the table and the length depend on the kinds of the operands only
      have hkind1 := map_kind_eq_of_rel hrel1
      have hkind2 := map_kind_eq_of_rel hrel2
      have hcount' : (words.map (names.newWord ρ)).length ≤ 2 := by rwa [List.length_map]
      rw [← hkind1, ← hkind2] at hrow
      rw [Instruction.lengthOf, ← hkind1, ← hkind2] at htop
      refine ⟨_, .instruction hcount' rfl rfl hrow htop,
        .accept (.collected m ⟨rfl, hrel1, hrel2, rfl, ?_⟩)⟩
      rw [Instruction.lengthOf, Instruction.lengthOf, hkind1, hkind2]

/-- **A line that is taken without an error is taken under the new names**, with a
corresponding effect. -/
theorem Grants.renamed (hnames : names.Readable) (hρ : names.Renaming ρ)
    (hkeys : s.names.keys ⊆ names.keys) {line : CodeLine} (hend : line.isEnd = false)
    {v : Verdict} (hv : s.Grants (.ofWords line.head line.rest) v)
    (hmentions : ∀ name, v.effect.Mentions name → names.contains name = true) :
    ∃ v', (s.renamed ρ).Grants
        (.ofWords (line.renamed names ρ).head (line.renamed names ρ).rest) v' ∧
      v.Respelled (Renames names ρ) v' := by
  obtain ⟨n, head, rest⟩ := line
  have hfinish : Directive.ofName? head ≠ some .finish := CodeLine.isEnd_eq_false_iff.mp hend
  have hsays := Statement.says_ofWords hfinish rest
  generalize hwords : Statement.ofWords head rest = stmt at hv hsays
  -- a new name is free where the old one is
  have hfree : ∀ {id}, names.contains id = true → s.names.contains id = false →
      (s.names.renamed ρ).contains (ρ (Text.upper id)) = false := by
    intro id hid hold
    rw [SymbolTable.contains_renamed hρ hkeys ⟨hid, rfl⟩, hold]
  cases hv with
  | org hread hlow htop =>
      rw [renamed_of_not_holdsNames (by rw [hwords]; rfl), hwords]
      exact ⟨_, .org hread hlow htop, .accept (.moved _)⟩
  | offset hread hrange hlow hlimit =>
      rw [renamed_of_not_holdsNames (by rw [hwords]; rfl), hwords]
      exact ⟨_, .offset hread hrange hlow hlimit, .accept (.moved _)⟩
  | close hname =>
      rw [renamed_of_not_holdsNames (by rw [hwords]; rfl), hwords]
      exact ⟨_, .close hname, .accept .closed⟩
  | @label id hname hnew =>
      cases hsays with
      | label hhead =>
          have hid := hmentions id (.labelled id)
          have hkey := SymbolTable.contains_iff.mp hid
          rw [hhead, renamed_label, SymbolTable.newWord_of_contains hid, Statement.ofWords_label]
          exact ⟨_, .label (hρ.name _ hkey) (hfree hid hnew), .accept (.labelled ⟨hid, rfl⟩)⟩
  | @define id type values hname hnew hvalues htop =>
      cases hsays with
      | define hkeyword hrest hdirective =>
          have hid := hmentions head (.defined _ _ _)
          have hkey := SymbolTable.contains_iff.mp hid
          rw [renamed_of_define hfinish hwords, SymbolTable.newWord_of_contains hid]
          dsimp only
          rw [Statement.ofWords_named (hρ.name _ hkey) (hρ.keyword _ hkey), hrest,
            Statement.ofNamed_define hdirective]
          exact ⟨_, .define (hρ.name _ hkey) (hfree hid hnew) hvalues htop,
            valueFindings_self hvalues, .defined ⟨hid, rfl⟩ _ _⟩
  | instruction hcount hop1 hop2 hrow htop =>
      cases hsays with
      | instruction hmnemonic =>
          rw [renamed_of_mnemonic hmnemonic]
          dsimp only
          rw [Statement.ofWords_of_mnemonic hmnemonic]
          exact grants_instruction_renamed hnames hρ (.instruction hcount hop1 hop2 hrow htop)
            hmentions

/-- **One line under the new names.** -/
theorem scan_renamed (hnames : names.Readable) (hρ : names.Renaming ρ)
    (hphase : s.phase ≠ .pending) (hkeys : s.names.keys ⊆ names.keys) {line : CodeLine}
    (hend : line.isEnd = false) (hclean : (s.scan line).verdict.Clean)
    (hmentions : ∀ name, (s.scan line).verdict.effect.Mentions name →
      names.contains name = true) :
    (s.scan line).Respelled (Renames names ρ) ((s.renamed ρ).scan (line.renamed names ρ)) ∧
      ((s.renamed ρ).scan (line.renamed names ρ)).next = (s.scan line).next.renamed ρ := by
  obtain ⟨hopened, hgrants⟩ := grants_of_clean hphase hclean
  obtain ⟨v', hgrants', hverdict⟩ := hgrants.renamed hnames hρ hkeys hend hmentions
  have hopened' : (s.renamed ρ).phase = .opened := hopened
  rw [(scan_of_grants hopened' hgrants').1]
  refine ⟨⟨number_renamed line, rfl, hverdict.findings, hverdict.effect⟩, ?_⟩
  exact apply_renamed hρ hkeys hverdict.effect

/-- **A run under the new names** does the same line by line. -/
theorem run_renamed (hnames : names.Readable) (hρ : names.Renaming ρ) {lines : List CodeLine}
    (hphase : s.phase ≠ .pending) (hkeys : s.names.keys ⊆ names.keys)
    (hend : ∀ line ∈ lines, line.isEnd = false) (hclean : ∀ r ∈ s.run lines, r.verdict.Clean)
    (hmentions : ∀ r ∈ s.run lines, ∀ name, r.verdict.effect.Mentions name →
      names.contains name = true) :
    List.Forall₂ (Record.Respelled (Renames names ρ)) (s.run lines)
        ((s.renamed ρ).run (lines.map (CodeLine.renamed names ρ))) ∧
      (s.renamed ρ).finish ((s.renamed ρ).run (lines.map (CodeLine.renamed names ρ))) =
        (s.finish (s.run lines)).renamed ρ := by
  induction lines generalizing s with
  | nil => exact ⟨.nil, rfl⟩
  | cons line rest ih =>
      rw [run_cons, List.forall_mem_cons] at hclean hmentions
      rw [List.forall_mem_cons] at hend
      obtain ⟨hline, hnext⟩ :=
        scan_renamed hnames hρ hphase hkeys hend.1 hclean.1 hmentions.1
      have hkeys' : (s.scan line).next.names.keys ⊆ names.keys :=
        keys_apply_subset hkeys hmentions.1
      obtain ⟨hrecords, hfinish⟩ :=
        ih (phase_apply_ne_pending hphase) hkeys' hend.2 hclean.2 hmentions.2
      rw [List.map_cons, run_cons, run_cons, finish_cons, finish_cons, hnext]
      exact ⟨.cons hline hrecords, hfinish⟩

/-- The opening line holds no name of the program. -/
theorem renamed_opening {n : Nat} {id word : Text} (hname : isName id = true)
    (hkeyword : isKeyword id = false) (hword : Directive.ofName? word = some .segment) :
    CodeLine.renamed names ρ ⟨n, id, [word]⟩ = ⟨n, id, [word]⟩ := by
  apply renamed_of_not_holdsNames
  rw [Statement.ofWords_named hname hkeyword]
  simp [Statement.ofNamed, hword, Statement.holdsNames]

/-- **A whole program under the new names.** -/
theorem run_start_renamed (hnames : names.Readable) (hρ : names.Renaming ρ)
    {lines : List CodeLine} (hend : ∀ line ∈ lines, line.isEnd = false)
    (hclean : ∀ r ∈ run {} lines, r.verdict.Clean)
    (hmentions : ∀ r ∈ run {} lines, ∀ name, r.verdict.effect.Mentions name →
      names.contains name = true) :
    List.Forall₂ (Record.Respelled (Renames names ρ)) (run {} lines)
        (run {} (lines.map (CodeLine.renamed names ρ))) ∧
      finish {} (run {} (lines.map (CodeLine.renamed names ρ))) =
        (finish {} (run {} lines)).renamed ρ := by
  cases lines with
  | nil => exact ⟨.nil, rfl⟩
  | cons line rest =>
      obtain ⟨n, id, words⟩ := line
      rw [run_cons, List.forall_mem_cons] at hclean hmentions
      rw [List.forall_mem_cons] at hend
      have hopening : (judgeOpening {} id words).Clean := hclean.1
      obtain ⟨word, rfl, hword, hname, hkeyword⟩ := judgeOpening_clean_iff.mp hopening
      rw [List.map_cons, renamed_opening hname hkeyword hword, run_cons, run_cons, finish_cons,
        finish_cons]
      rw [scan_opening hname hkeyword hword] at hclean hmentions ⊢
      obtain ⟨hrecords, hfinish⟩ :=
        run_renamed hnames hρ (s := apply {} (.opened (Text.upper id))) nofun (List.nil_subset _)
          hend.2 hclean.2 hmentions.2
      exact ⟨.cons ⟨rfl, rfl, .nil, .opened _⟩ hrecords, hfinish⟩

end Runs

end State

/-! ### Programs -/

namespace Layout

variable {source : Text} {ρ : Text → Text}

/-- **A program under the new names** does line by line what it did before, and
its table of names is the old one with the new names in it. -/
theorem respelled_renameSource (hclean : (ofSource source).report.hasErrors = false)
    (hregisters : ∀ key ∈ (ofSource source).names.keys, Register.ofName? key = none)
    (hρ : (ofSource source).names.Renaming ρ) :
    (ofSource source).Respelled (Renames (ofSource source).names ρ)
        (ofSource (renameSource (ofSource source).names ρ source)) ∧
      (ofSource (renameSource (ofSource source).names ρ source)).names =
        (ofSource source).names.renamed ρ := by
  obtain ⟨hlines, hends⟩ := programLines_renameSource hρ source
  have hnames : (ofSource source).names.Readable :=
    ⟨fun _ => isCapitalName_of_mem_keys, hregisters⟩
  obtain ⟨hrecords, hfinish⟩ := State.run_start_renamed hnames hρ
    (fun _ => isEnd_eq_false_of_mem_programLines) (clean_of_no_errors hclean).1
    (fun _ hr _ => contains_of_mentions hclean hr)
  rw [← hlines] at hrecords hfinish
  have hfinal : (ofSource (renameSource (ofSource source).names ρ source)).final =
      (ofSource source).final.renamed ρ := hfinish
  have hnew : (ofSource (renameSource (ofSource source).names ρ source)).names =
      (ofSource source).names.renamed ρ := by
    rw [names, hfinal]
    rfl
  refine ⟨⟨hrecords, ?_, ?_, ?_, hends, ?_⟩, hnew⟩
  · rw [hfinal]
    rfl
  · rw [segmentName, hfinal]
    rfl
  · intro x y hxy
    rw [hnew]
    exact SymbolTable.get?_renamed hρ (List.Subset.refl _) hxy
  · have hlength := congrArg List.length (splitLines_renameSource hρ source)
    rwa [List.length_map] at hlength

/-- Two programs that differ in their names only: the same code in the same
places, and a table with the new names in the order of the old ones. -/
structure SameButNames (ρ : Text → Text) (l l' : Layout) : Prop where
  addresses : l'.addresses = l.addresses
  sizes : l'.items.map (fun entry => (entry.1, entry.2.size)) =
    l.items.map fun entry => (entry.1, entry.2.size)
  hex : l'.image.hex = l.image.hex
  names : l'.names.entries = l.names.entries.map fun entry => (Text.upper (ρ entry.1), entry.2)

end Layout

/-- **Renaming does not change the program.**  A source without errors, none of
whose names is a register, is assembled under new names without errors and to the
same object record; code and addresses stay where they are, and the table of names
is renamed entry by entry. -/
theorem assemble?_renameSource {source : Text} {ρ : Text → Text} {a : Assembly}
    (h : assemble? source = some a) (hclean : a.report.hasErrors = false)
    (hregisters : ∀ key ∈ (Layout.ofSource source).names.keys, Register.ofName? key = none)
    (hρ : (Layout.ofSource source).names.Renaming ρ) :
    ∃ a', assemble? (renameSource (Layout.ofSource source).names ρ source) = some a' ∧
      a'.report.hasErrors = false ∧ a'.objectBytes = a.objectBytes ∧
      (Layout.ofSource source).SameButNames ρ
        (.ofSource (renameSource (Layout.ofSource source).names ρ source)) := by
  obtain rfl := Layout.eq_ofLayout_of_assemble? h
  obtain ⟨hlayout, hnames⟩ := Layout.respelled_renameSource hclean hregisters hρ
  have hblank : Text.isAllBlank (renameSource (Layout.ofSource source).names ρ source) = false := by
    rw [renameSource, isAllBlank_mapLines (fun _ => isLine_renameLine hρ)
      (fun _ _ => renameLine_eq_nil_iff hρ)]
    by_contra hblank
    simp [assemble?, hblank] at h
  refine ⟨_, assemble?_of_not_blank hblank, ?_, hlayout.objectBytes_eq, ?_⟩
  · exact hlayout.hasErrors_eq.trans hclean
  · exact ⟨hlayout.addresses_eq, hlayout.sizes_eq, hlayout.hex_eq,
      congrArg SymbolTable.entries hnames⟩

/-- A program whose label is called like its segment and whose data has a name that
is also a number: the two names change places. -/
theorem assemble?_renameSource_swapped :
    let source := "x SEGMENT\n X:\n MOV AX , Ffh ; ffh\n JA x\nffh DW FFH, ?\nx ENDS\nEND x".toList
    let ρ := fun key => if key = "X".toList then "ffh".toList else "x".toList
    let source' := "x SEGMENT\n ffh:\n MOV AX , x ; ffh\n JA ffh\nx DW FFH, ?\nx ENDS\nEND x".toList
    renameSource (Layout.ofSource source).names ρ source = source' ∧
      ∃ a a', assemble? source = some a ∧ assemble? source' = some a' ∧
        a'.report.hasErrors = false ∧ a'.objectBytes = a.objectBytes ∧
        (Layout.ofSource source).SameButNames ρ (.ofSource source') := by
  intro source ρ source'
  have hsource : renameSource (Layout.ofSource source).names ρ source = source' := by decide
  have hassembled : assemble? source = some (.ofLayout (.ofSource source)) :=
    assemble?_of_not_blank (by decide)
  have hρ : (Layout.ofSource source).names.Renaming ρ :=
    ⟨by decide, by decide, by decide, by decide⟩
  obtain ⟨a', ha', hresult⟩ :=
    assemble?_renameSource hassembled (by decide) (by decide) hρ
  rw [hsource] at ha' hresult
  exact ⟨hsource, _, a', hassembled, ha', hresult⟩

end SegmentAssembler
