import SegmentAssembler.Image

/-!
# Encoding with a larger table of names

Items are encoded after the last line of the program, with all the names that
there are by then.  A longer program has more names, and those of the shorter
one stand for what they did.  The encoder asks the table for nothing but
names, so that what it makes of an item stands when names are added

    table        t                     t'   with the names of t and others
    outcome      bytes                 the same bytes
                 a missing name        anything
                 any other complaint   the same complaint

* `resolve_stands`, `distance_stands` — the two places where a name is asked for;
* `placeFirst_stands`, `placeSecond_stands` — hence each operand;
* `Item.encode_stands` — hence every item, whether the scan could have
  collected it or not.
-/

namespace SegmentAssembler

/-- The complaint that a name is missing from the table. -/
def Diagnostic.isUndeclared : Diagnostic → Bool
  | undeclared _ | undeclaredTarget _ => true
  | _ => false

/-- The names of the first table stand for the same in the second one. -/
def SymbolTable.Extends (t t' : SymbolTable) : Prop :=
  ∀ name symbol, t.get? name = some symbol → t'.get? name = some symbol

/-- Entries that are added at the end hide none of the others. -/
theorem SymbolTable.extends_of_isPrefix {t t' : SymbolTable} (h : t.entries <+: t'.entries) :
    t.Extends t' := by
  obtain ⟨added, hadded⟩ := h
  intro name symbol hname
  have hfound : t.entries.lookup (Text.upper name) = some symbol := hname
  rw [get?, ← hadded, List.lookup_append, hfound, Option.some_or]

/-- The second outcome is the first one, unless that was a missing name. -/
def Stands {α : Type} (outcome outcome' : Except Diagnostic α) : Prop :=
  outcome' = outcome ∨ ∃ d, outcome = .error d ∧ d.isUndeclared = true

namespace Stands

variable {α β : Type} {outcome outcome' : Except Diagnostic α}

theorem of_eq (h : outcome' = outcome) : Stands outcome outcome' := Or.inl h

/-- A missing name may turn into anything in a larger table. -/
theorem of_missing {d : Diagnostic} (h : outcome = .error d) (hd : d.isUndeclared = true) :
    Stands outcome outcome' :=
  Or.inr ⟨d, h, hd⟩

/-- What stands still stands after a further step that cannot fail. -/
theorem map (h : Stands outcome outcome') (f : α → β) :
    Stands (outcome.map f) (outcome'.map f) := by
  rcases h with rfl | ⟨d, rfl, hd⟩
  · exact of_eq rfl
  · exact of_missing rfl hd

/-- What was made without a complaint is made again. -/
theorem ok (h : Stands outcome outcome') {a : α} (ha : outcome = .ok a) : outcome' = .ok a := by
  rcases h with heq | ⟨d, hd, -⟩
  · rw [heq, ha]
  · rw [ha] at hd
    cases hd

end Stands

section Encoding

variable {t t' : SymbolTable}

/-- A name that is resolved keeps its address in a larger table. -/
theorem resolve_stands (h : t.Extends t') (name : Text) :
    Stands (t.resolve name) (t'.resolve name) := by
  cases hname : t.get? name with
  | none => exact .of_missing (by rw [SymbolTable.resolve, hname]) rfl
  | some symbol =>
      apply Stands.of_eq
      rw [SymbolTable.resolve, SymbolTable.resolve, hname, h name symbol hname]

namespace Instruction

/-- The distance to a label stays in a larger table, whether it is in reach or not. -/
theorem distance_stands (h : t.Extends t') (i : Instruction) (name : Text) :
    Stands (i.distance t name) (i.distance t' name) := by
  cases hname : t.get? name with
  | none => exact .of_missing (by rw [distance, hname]) rfl
  | some symbol =>
      apply Stands.of_eq
      rw [distance, distance, hname, h name symbol hname]

/-- The first operand asks for one name at most. -/
theorem placeFirst_stands (h : t.Extends t') (i : Instruction) (op : Operand) :
    Stands (i.placeFirst t op) (i.placeFirst t' op) := by
  cases op with
  | register r => exact .of_eq rfl
  | immediate v => exact .of_eq rfl
  | address name =>
      rcases resolve_stands h name with heq | ⟨d, hd, hmissing⟩
      · exact .of_eq (by simp only [placeFirst, heq])
      · exact .of_missing (by simp only [placeFirst, hd]) hmissing
  | displacement name =>
      rcases distance_stands h i name with heq | ⟨d, hd, hmissing⟩
      · exact .of_eq (by simp only [placeFirst, heq])
      · exact .of_missing (by simp only [placeFirst, hd]) hmissing

/-- The second operand asks for a name only where there are fields to complete. -/
theorem placeSecond_stands (h : t.Extends t') (i : Instruction) (p : Parts) :
    Stands (i.placeSecond t p) (i.placeSecond t' p) := by
  by_cases hasks : ∃ name f, i.op2 = some (.address name) ∧ p.second = .fields f
  · obtain ⟨name, f, hop2, hsecond⟩ := hasks
    rcases resolve_stands h name with heq | ⟨d, hd, hmissing⟩
    · exact .of_eq (by simp only [placeSecond, hop2, hsecond, heq])
    · exact .of_missing (by simp only [placeSecond, hop2, hsecond, hd]) hmissing
  · apply Stands.of_eq
    unfold placeSecond
    split
    case h_2 name f hop2 hsecond => exact absurd ⟨name, f, hop2, hsecond⟩ hasks
    all_goals rfl

/-- The operands are placed one after the other, and the first complaint is the
last. -/
theorem plainBytes_stands (h : t.Extends t') (i : Instruction) :
    Stands (i.plainBytes t) (i.plainBytes t') := by
  cases hop1 : i.op1 with
  | none => exact .of_eq (by simp only [plainBytes, hop1])
  | some op1 =>
      rcases placeFirst_stands h i op1 with hfirst | ⟨d, hd, hmissing⟩
      · cases hplaced : i.placeFirst t op1 with
        | error d =>
            rw [hplaced] at hfirst
            exact .of_eq (by simp only [plainBytes, hop1, hplaced, hfirst])
        | ok p =>
            rw [hplaced] at hfirst
            rcases placeSecond_stands h i p with hsecond | ⟨d, hd, hmissing⟩
            · exact .of_eq (by simp only [plainBytes, hop1, hplaced, hfirst, hsecond])
            · exact .of_missing (by simp only [plainBytes, hop1, hplaced, hd]) hmissing
      · exact .of_missing (by simp only [plainBytes, hop1, hd]) hmissing

/-- **An instruction is encoded the same under a larger table**, unless a name was
missing. -/
theorem encode_stands (h : t.Extends t') (i : Instruction) :
    Stands (i.encode t) (i.encode t') := by
  have hbytes : Stands (i.bytes t) (i.bytes t') := by
    cases hop1 : i.op1 with
    | none => exact .of_eq (by simp only [Instruction.bytes, hop1])
    | some op1 =>
        simp only [Instruction.bytes, hop1]
        exact (plainBytes_stands h i).map _
  exact hbytes.map _

end Instruction

/-- **What is made of an item stands when names are added**, unless it was the
complaint that a name is missing. -/
theorem Item.encode_stands (h : t.Extends t') (item : Item) :
    Stands (item.encode t) (item.encode t') := by
  cases item with
  | instruction i => exact i.encode_stands h
  | data d => exact .of_eq rfl

end Encoding

end SegmentAssembler
