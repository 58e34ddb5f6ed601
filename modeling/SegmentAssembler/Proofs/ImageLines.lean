import SegmentAssembler.Proofs.RejectedLines

/-!
# The image, line by line

Tables under line numbers are kept as lists whose lines ascend, and then what
stands under a line is found by looking it up (`Ascending.lookup_eq_some_iff`).
Each item is encoded on its own, so what the image has under a line follows
from the item on that line and the names of the program alone:

* `lookup_hex` — the text of a line is the text of its item, if that is encoded;
* `on_findings` — the complaint on a line is the complaint about its item, if
  that is not encoded.
-/

namespace SegmentAssembler

/-- Entries under line numbers, lines ascending. -/
def Ascending {α : Type} (entries : List (Nat × α)) : Prop :=
  entries.Pairwise fun a b => a.1 < b.1

namespace Ascending

variable {α β : Type} {entries : List (Nat × α)}

/-- A line has what it has an entry for. -/
theorem lookup_eq_some_iff (h : Ascending entries) {n : Nat} {a : α} :
    entries.lookup n = some a ↔ (n, a) ∈ entries := by
  rw [List.lookup_eq_some_iff]
  constructor
  · rintro ⟨pre, post, rfl, -⟩
    simp
  · intro hmem
    obtain ⟨pre, post, rfl⟩ := List.append_of_mem hmem
    refine ⟨pre, post, rfl, fun entry hentry => ?_⟩
    have hlt := (List.pairwise_append.mp h).2.2 entry hentry (n, a) List.mem_cons_self
    simp only [bne_iff_ne, ne_eq]
    omega

/-- What is made of entries one by one stands under the same lines. -/
theorem filterMap (h : Ascending entries) (f : α → Option β) :
    Ascending (entries.filterMap fun entry => (f entry.2).map fun b => (entry.1, b)) := by
  refine List.Pairwise.filterMap _ ?_ h
  intro a a' hlt b hb b' hb'
  obtain ⟨-, -, rfl⟩ := Option.map_eq_some_iff.mp hb
  obtain ⟨-, -, rfl⟩ := Option.map_eq_some_iff.mp hb'
  exact hlt

/-- It is looked up by looking up the entry. -/
theorem lookup_filterMap (h : Ascending entries) (f : α → Option β) (n : Nat) :
    (entries.filterMap fun entry => (f entry.2).map fun b => (entry.1, b)).lookup n =
      (entries.lookup n).bind f := by
  ext b
  rw [(h.filterMap f).lookup_eq_some_iff, Option.bind_eq_some_iff]
  simp only [List.mem_filterMap, Option.map_eq_some_iff, Prod.mk.injEq, h.lookup_eq_some_iff]
  constructor
  · rintro ⟨⟨m, a⟩, ha, b', hb, rfl, rfl⟩
    exact ⟨a, ha, hb⟩
  · rintro ⟨a, ha, hb⟩
    exact ⟨(n, a), ha, b, hb, rfl, rfl⟩

/-- The entries of one line: the one that is looked up, if there is one. -/
theorem map_snd_filter (h : Ascending entries) (n : Nat) :
    (entries.filter fun entry => decide (entry.1 = n)).map Prod.snd =
      (entries.lookup n).toList := by
  induction entries with
  | nil => rfl
  | cons entry rest ih =>
      obtain ⟨hfirst, hrest⟩ := List.pairwise_cons.mp h
      by_cases hn : entry.1 = n
      · have hnone : rest.filter (fun entry => decide (entry.1 = n)) = [] := by
          rw [List.filter_eq_nil_iff]
          intro other hother heq
          have hlt := hfirst other hother
          simp only [decide_eq_true_eq] at heq
          omega
        rw [List.filter_cons_of_pos (by simpa using hn), hnone, ← hn, List.lookup_cons_self]
        rfl
      · have hlookup : (entry :: rest).lookup n = rest.lookup n := by
          rw [List.lookup_cons, beq_eq_false_iff_ne.mpr (Ne.symm hn)]
        rw [List.filter_cons_of_neg (by simpa using hn), hlookup, ih hrest]

end Ascending

/-! ### What becomes of an item -/

namespace Item

/-- The text of an item, if it is encoded. -/
def hex? (names : SymbolTable) (item : Item) : Option CodeText :=
  match item.encode names with
  | .ok e => some e.hex
  | .error _ => none

/-- The complaint about an item, if it is not encoded. -/
def fault? (names : SymbolTable) (item : Item) : Option Diagnostic :=
  match item.encode names with
  | .ok _ => none
  | .error d => some d

/-- The text of an item is that of its encoding. -/
theorem hex?_eq_some_iff {names : SymbolTable} {item : Item} {text : CodeText} :
    item.hex? names = some text ↔ ∃ e, item.encode names = .ok e ∧ e.hex = text := by
  unfold hex?
  cases item.encode names with
  | ok e => simp
  | error d => simp

/-- The fault of an item is what its encoding fails with. -/
theorem fault?_eq_some_iff {names : SymbolTable} {item : Item} {d : Diagnostic} :
    item.fault? names = some d ↔ item.encode names = .error d := by
  unfold fault?
  cases item.encode names with
  | ok e => simp
  | error d' => simp

end Item

namespace Image

variable {names : SymbolTable} {items : List (Nat × Item)}

/-- What is encoded under a line is the item of that line. -/
theorem exists_of_mem_encoded {n : Nat} {e : Encoded} (h : (n, e) ∈ (ofItems names items).encoded) :
    ∃ item, (n, item) ∈ items ∧ item.encode names = .ok e := by
  simp only [encoded, ofItems, List.mem_filterMap, List.mem_map, exists_exists_and_eq_and] at h
  obtain ⟨⟨m, item⟩, hentry, hcoded⟩ := h
  cases hcode : item.encode names with
  | error d => simp [hcode] at hcoded
  | ok e' =>
      obtain ⟨rfl, rfl⟩ : m = n ∧ e' = e := by simpa [hcode] using hcoded
      exact ⟨item, hentry, hcode⟩

/-- The text of an image, item by item. -/
theorem hex_ofItems (names : SymbolTable) (items : List (Nat × Item)) :
    (ofItems names items).hex =
      items.filterMap fun entry => (entry.2.hex? names).map fun text => (entry.1, text) := by
  rw [hex, encoded, ofItems, List.filterMap_map, List.map_filterMap]
  refine List.filterMap_congr fun entry _ => ?_
  simp only [Function.comp_apply, Item.hex?]
  cases entry.2.encode names <;> rfl

/-- The errors of an image, item by item. -/
theorem errors_findings_ofItems (names : SymbolTable) (items : List (Nat × Item)) :
    Report.select .error (ofItems names items).findings =
      items.filterMap fun entry => (entry.2.fault? names).map fun d => (entry.1, d) := by
  rw [Report.select, findings, ofItems, List.filterMap_map, List.filterMap_filterMap]
  refine List.filterMap_congr fun entry _ => ?_
  simp only [Function.comp_apply, Item.fault?]
  cases entry.2.encode names <;> rfl

/-- Encoding gives no warnings. -/
theorem warnings_findings_ofItems (names : SymbolTable) (items : List (Nat × Item)) :
    Report.select .warning (ofItems names items).findings = [] := by
  rw [Report.select, List.filterMap_eq_nil_iff]
  intro found hfound
  obtain ⟨entry, -, d, rfl, -⟩ := exists_of_mem_findings hfound
  rfl

/-- **The text of a line** is the text of its item. -/
theorem lookup_hex (h : Ascending items) (n : Nat) :
    (ofItems names items).hex.lookup n = (items.lookup n).bind (Item.hex? names) := by
  rw [hex_ofItems, h.lookup_filterMap]

/-- The text of an image stands under ascending lines, as its items do. -/
theorem ascending_hex (h : Ascending items) : Ascending (ofItems names items).hex := by
  rw [hex_ofItems]
  exact h.filterMap _

/-- **The complaint on a line** is the complaint about its item. -/
theorem on_findings (h : Ascending items) (n : Nat) :
    (Report.ofFindings (ofItems names items).findings).on .error n =
      ((items.lookup n).bind (Item.fault? names)).toList := by
  have hselect : (Report.ofFindings (ofItems names items).findings).errors =
      items.filterMap fun entry => (entry.2.fault? names).map fun d => (entry.1, d) :=
    errors_findings_ofItems names items
  rw [Report.on, hselect, (h.filterMap _).map_snd_filter, h.lookup_filterMap]

end Image

namespace Layout

/-- Only the scan has warnings. -/
theorem warnings_report (l : Layout) :
    l.report.warnings = Report.select .warning (l.records.flatMap Record.findings) := by
  have hlength : Report.select .warning l.lengthFindings = [] := by
    unfold lengthFindings
    split <;> rfl
  have himage : Report.select .warning l.image.findings = [] :=
    Image.warnings_findings_ofItems l.names l.items
  unfold Report.select at hlength himage
  simp only [report, Report.ofFindings, findings, Report.select, List.filterMap_append, hlength,
    himage, List.append_nil]

end Layout

end SegmentAssembler
