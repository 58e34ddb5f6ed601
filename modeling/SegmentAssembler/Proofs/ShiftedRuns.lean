import Mathlib.Data.List.Forall2
import SegmentAssembler.Proofs.CleanVerdicts
import SegmentAssembler.Proofs.RunRecords

/-!
# Runs at a distance

The scan is run twice over the same lines, from two states that differ only in
their addresses: the counters, and the addresses of all names, lie a fixed
distance apart.  As long as no line says where the counter is to go and no line
is faulty, the two runs stay this far apart:

* `Grants.shifted` — a statement that both states take without an error has
  effects at the same distance;
* `Shifted.apply` — and such effects keep the states at the distance;
* `shifted_run` — so do whole runs, record by record.

What is read off the records follows suit: `shifted_items`,
`shifted_addresses`, `findings_eq_of_shifted`.
-/

namespace SegmentAssembler

/-! ### Tables at a distance -/

/-- Entries under the same key with related contents. -/
def UnderSameKey {κ α : Type} (R : α → α → Prop) (x y : κ × α) : Prop :=
  y.1 = x.1 ∧ R x.2 y.2

/-- Addresses at a distance. -/
def AddressShifted (d : Int) (x y : Nat) : Prop := (y : Int) = x + d

/-- What is found under a key in the one table has its counterpart in the other. -/
theorem rel_lookup {κ α : Type} [BEq κ] {R : α → α → Prop} {xs ys : List (κ × α)}
    (h : List.Forall₂ (UnderSameKey R) xs ys) (k : κ) :
    Option.Rel R (xs.lookup k) (ys.lookup k) := by
  induction h with
  | nil => exact .none
  | @cons x y xs ys hxy _ ih =>
      obtain ⟨key, value⟩ := x
      obtain ⟨key', value'⟩ := y
      obtain ⟨rfl, hvalue⟩ := hxy
      rw [List.lookup_cons, List.lookup_cons]
      cases k == key' with
      | true => exact .some hvalue
      | false => exact ih

/-- The same kind of name at an address at a distance. -/
structure Symbol.Shifted (d : Int) (x y : Symbol) : Prop where
  kind : y.kind = x.kind
  address : AddressShifted d x.address y.address

/-- The same names, with all addresses at a distance. -/
def SymbolTable.Shifted (d : Int) (t u : SymbolTable) : Prop :=
  List.Forall₂ (UnderSameKey (Symbol.Shifted d)) t.entries u.entries

namespace SymbolTable.Shifted

variable {d : Int} {t u : SymbolTable}

/-- A name is found in both tables or in neither, and its address is shifted. -/
theorem get? (h : t.Shifted d u) (name : Text) :
    Option.Rel (Symbol.Shifted d) (t.get? name) (u.get? name) :=
  rel_lookup h (Text.upper name)

/-- What both tables have under a name is shifted. -/
theorem of_get? (h : t.Shifted d u) {name : Text} {x y : Symbol} (hx : t.get? name = some x)
    (hy : u.get? name = some y) : x.Shifted d y := by
  have hrel := h.get? name
  rw [hx, hy] at hrel
  cases hrel with
  | some hxy => exact hxy

theorem contains_eq (h : t.Shifted d u) (name : Text) : u.contains name = t.contains name := by
  have hrel := h.get? name
  unfold contains
  generalize t.get? name = x at hrel
  generalize u.get? name = y at hrel
  cases hrel with
  | some _ => rfl
  | none => rfl

/-- Both tables take a new name or refuse it. -/
theorem declare (h : t.Shifted d u) (name : Text) {x y : Symbol} (hxy : x.Shifted d y) :
    (t.declare name x).Shifted d (u.declare name y) := by
  have hcontains := h.contains_eq name
  cases ht : t.contains name with
  | true =>
      rw [declare_of_contains ht, declare_of_contains (hcontains.trans ht)]
      exact h
  | false =>
      rw [SymbolTable.Shifted, entries_declare_of_not_contains ht,
        entries_declare_of_not_contains (hcontains.trans ht)]
      exact List.rel_append h (.cons ⟨rfl, hxy⟩ .nil)

end SymbolTable.Shifted

/-! ### Effects and states at a distance -/

/-- The same instruction at an address at a distance. -/
structure Instruction.Shifted (d : Int) (i j : Instruction) : Prop where
  template : j.template = i.template
  op1 : j.op1 = i.op1
  op2 : j.op2 = i.op2
  length : j.length = i.length
  address : AddressShifted d i.address j.address

/-- The same item at a distance; data does not know its address. -/
inductive Item.Shifted (d : Int) : Item → Item → Prop
  | instruction {i j : Instruction} (h : i.Shifted d j) :
      Shifted d (.instruction i) (.instruction j)
  | data (x : Definition) : Shifted d (.data x) (.data x)

theorem Item.Shifted.size_eq {d : Int} {x y : Item} (h : x.Shifted d y) : y.size = x.size := by
  cases h with
  | instruction h => exact h.length
  | data x => rfl

/-- The effects of one line inside the segment, at a distance. -/
inductive Effect.Shifted (d : Int) : Effect → Effect → Prop
  | closed : Shifted d .closed .closed
  | moved {a b : Nat} (h : AddressShifted d a b) : Shifted d (.moved a) (.moved b)
  | labelled (id : Text) : Shifted d (.labelled id) (.labelled id)
  | defined (id : Text) (type : DataType) (values : List (Option Int)) :
      Shifted d (.defined id type values) (.defined id type values)
  | collected (m : Mnemonic) {i j : Instruction} (h : i.Shifted d j) :
      Shifted d (.collected m i) (.collected m j)

/-- Shifted effects have shifted items. -/
theorem Effect.Shifted.item? {d : Int} {e e' : Effect} (h : e.Shifted d e') :
    Option.Rel (Item.Shifted d) e.item? e'.item? := by
  cases h with
  | defined id type values => exact .some (.data _)
  | collected m h => exact .some (.instruction h)
  | _ => exact .none

theorem Effect.Shifted.isSome_item?_eq {d : Int} {e e' : Effect} (h : e.Shifted d e') :
    e'.item?.isSome = e.item?.isSome := by
  cases h <;> rfl

theorem Effect.Shifted.hasAddress_eq {d : Int} {e e' : Effect} (h : e.Shifted d e') :
    e'.hasAddress = e.hasAddress := by
  cases h <;> rfl

namespace State

/-- States that differ in their addresses only. -/
structure Shifted (d : Int) (s t : State) : Prop where
  phase : t.phase = s.phase
  segmentName : t.segmentName = s.segmentName
  counter : AddressShifted d s.counter t.counter
  names : s.names.Shifted d t.names

variable {d : Int} {s t : State}

/-- **A statement that both states take** has effects at the same distance,
unless it says where the counter is to go. -/
theorem Grants.shifted {stmt : Statement} {v v' : Verdict} (h : s.Shifted d t)
    (hv : s.Grants stmt v) (hv' : t.Grants stmt v') (horg : ∀ words, stmt ≠ .org words) :
    v'.findings = v.findings ∧ v.effect.Shifted d v'.effect := by
  have hcounter : (t.counter : Int) = s.counter + d := h.counter
  cases hv with
  | org hread hlow htop => exact absurd rfl (horg _)
  | @offset word v hread hrange hlow hlimit =>
      cases hv' with
      | @offset word v' hread' hrange' hlow' hlimit' =>
          obtain rfl : v = v' := Option.some.inj (hread.symm.trans hread')
          refine ⟨rfl, .moved ?_⟩
          unfold AddressShifted
          omega
  | close hname =>
      cases hv' with
      | close hname' => exact ⟨rfl, .closed⟩
  | label hname hfree =>
      cases hv' with
      | label hname' hfree' => exact ⟨rfl, .labelled _⟩
  | define hname hfree hvalues htop =>
      cases hv' with
      | define hname' hfree' hvalues' htop' => exact ⟨rfl, .defined _ _ _⟩
  | instruction hcount hop1 hop2 hrow htop =>
      cases hv' with
      | instruction hcount' hop1' hop2' hrow' htop' =>
          -- the operands are read off the words, and the template off the operands
          subst hop2 hop2' hop1 hop1'
          obtain rfl := Option.some.inj (hrow.symm.trans hrow')
          exact ⟨rfl, .collected _ ⟨rfl, rfl, rfl, rfl, h.counter⟩⟩

/-- **Effects at a distance keep states at the distance.** -/
theorem Shifted.apply (h : s.Shifted d t) {e e' : Effect} (he : e.Shifted d e') :
    (s.apply e).Shifted d (t.apply e') := by
  have hcounter : (t.counter : Int) = s.counter + d := h.counter
  cases he with
  | closed => exact ⟨rfl, h.segmentName, h.counter, h.names⟩
  | moved hmoved => exact ⟨h.phase, h.segmentName, hmoved, h.names⟩
  | labelled id => exact ⟨h.phase, h.segmentName, h.counter, h.names.declare id ⟨rfl, h.counter⟩⟩
  | defined id type values =>
      refine ⟨h.phase, h.segmentName, ?_, h.names.declare id ⟨rfl, h.counter⟩⟩
      simp only [AddressShifted, State.apply, counterAfter]
      omega
  | @collected m i j hij =>
      have hlength := hij.length
      refine ⟨h.phase, h.segmentName, ?_, h.names⟩
      simp only [AddressShifted, State.apply, counterAfter, Effect.advance, Effect.item?,
        Option.map_some, Option.getD_some, Item.size]
      omega

end State

/-! ### Runs at a distance -/

/-- What happened on one line in two runs at a distance. -/
structure Record.Shifted (d : Int) (r r' : Record) : Prop where
  line : r'.line = r.line
  before : r.before.Shifted d r'.before
  findings : r'.verdict.findings = r.verdict.findings
  effect : r.verdict.effect.Shifted d r'.verdict.effect

/-- Shifted records leave shifted states. -/
theorem Record.Shifted.next {d : Int} {r r' : Record} (h : r.Shifted d r') :
    r.next.Shifted d r'.next := h.before.apply h.effect

namespace State

variable {d : Int} {s t : State}

/-- **One line in two runs.** -/
theorem Shifted.scan (h : s.Shifted d t) {line : CodeLine} (hphase : s.phase ≠ .pending)
    (horg : Directive.ofName? line.head ≠ some .org)
    (hclean : (s.scan line).verdict.Clean) (hclean' : (t.scan line).verdict.Clean) :
    (s.scan line).Shifted d (t.scan line) := by
  obtain ⟨-, hgrants⟩ := grants_of_clean hphase hclean
  obtain ⟨-, hgrants'⟩ := grants_of_clean (by rwa [h.phase]) hclean'
  obtain ⟨hfindings, heffect⟩ := hgrants.shifted h hgrants' fun words hwords =>
    horg (Statement.directive_of_ofWords_org hwords)
  exact ⟨rfl, h, hfindings, heffect⟩

/-- No effect takes the segment back to before its opening. -/
theorem phase_apply_ne_pending {e : Effect} (hphase : s.phase ≠ .pending) :
    (s.apply e).phase ≠ .pending := by
  cases e with
  | opened name => exact nofun
  | closed => exact nofun
  | _ => exact hphase

/-- **Two runs over the same lines keep their distance.** -/
theorem shifted_run {lines : List CodeLine} (h : s.Shifted d t) (hphase : s.phase ≠ .pending)
    (horg : ∀ line ∈ lines, Directive.ofName? line.head ≠ some .org)
    (hclean : ∀ r ∈ s.run lines, r.verdict.Clean) (hclean' : ∀ r ∈ t.run lines, r.verdict.Clean) :
    List.Forall₂ (Record.Shifted d) (s.run lines) (t.run lines) ∧
      (s.finish (s.run lines)).Shifted d (t.finish (t.run lines)) := by
  induction lines generalizing s t with
  | nil => exact ⟨.nil, h⟩
  | cons line rest ih =>
      rw [run_cons, List.forall_mem_cons] at hclean hclean'
      rw [List.forall_mem_cons] at horg
      have hline := h.scan hphase horg.1 hclean.1 hclean'.1
      obtain ⟨hrecords, hfinish⟩ := ih hline.next (phase_apply_ne_pending hphase) horg.2
        hclean.2 hclean'.2
      rw [run_cons, run_cons, finish_cons, finish_cons]
      exact ⟨.cons hline hrecords, hfinish⟩

end State

/-! ### What is read off the records -/

/-- The first record of a kind in the one run is the first in the other. -/
theorem rel_find? {R : Record → Record → Prop} {rs rs' : List Record} (h : List.Forall₂ R rs rs')
    {p : Record → Bool} (hp : ∀ {r r' : Record}, R r r' → p r' = p r) :
    Option.Rel R (rs.find? p) (rs'.find? p) := by
  induction h with
  | nil => exact .none
  | @cons r r' rs rs' hr _ ih =>
      rw [List.find?_cons, List.find?_cons, hp hr]
      cases p r with
      | true => exact .some hr
      | false => exact ih

/-- Records on the same lines contribute corresponding items if their effects do. -/
theorem rel_items {R : Record → Record → Prop} {S : Item → Item → Prop} {rs rs' : List Record}
    (h : List.Forall₂ R rs rs')
    (hR : ∀ {r r' : Record}, R r r' → r'.line.number = r.line.number ∧
      Option.Rel S r.verdict.effect.item? r'.verdict.effect.item?) :
    List.Forall₂ (UnderSameKey S) (rs.filterMap Record.item?) (rs'.filterMap Record.item?) := by
  refine List.rel_filterMap (fun r r' hr => ?_) h
  obtain ⟨hnumber, hitem⟩ := hR hr
  unfold Record.item?
  rw [hnumber]
  generalize r.verdict.effect.item? = x at hitem
  generalize r'.verdict.effect.item? = y at hitem
  cases hitem with
  | some hxy => exact .some ⟨rfl, hxy⟩
  | none => exact .none

section Records

variable {d : Int} {rs rs' : List Record}

/-- Shifted records have shifted items, under the same lines. -/
theorem shifted_items (h : List.Forall₂ (Record.Shifted d) rs rs') :
    List.Forall₂ (UnderSameKey (Item.Shifted d)) (rs.filterMap Record.item?)
      (rs'.filterMap Record.item?) :=
  rel_items h fun hr => ⟨congrArg CodeLine.number hr.line, hr.effect.item?⟩

/-- Shifted records show shifted addresses, under the same lines. -/
theorem shifted_addresses (h : List.Forall₂ (Record.Shifted d) rs rs') :
    List.Forall₂ (UnderSameKey (AddressShifted d)) (rs.filterMap Record.address?)
      (rs'.filterMap Record.address?) := by
  refine List.rel_filterMap (fun r r' hr => ?_) h
  unfold Record.address?
  rw [hr.line, hr.effect.hasAddress_eq]
  split
  · exact .some ⟨rfl, hr.before.counter⟩
  · exact .none

/-- Nothing that is found depends on the shift. -/
theorem findings_eq_of_shifted (h : List.Forall₂ (Record.Shifted d) rs rs') :
    rs'.flatMap Record.findings = rs.flatMap Record.findings := by
  induction h with
  | nil => rfl
  | cons hr _ ih =>
      rw [List.flatMap_cons, List.flatMap_cons, ih, Record.findings, Record.findings, hr.line,
        hr.findings]

end Records

end SegmentAssembler
