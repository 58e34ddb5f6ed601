import SegmentAssembler.Assembly
import SegmentAssembler.Proofs.SizeAgreement

/-!
# Address accounting

Two things are laid end to end in a program.  The code is the bytes of the
items one after the other, so an item begins where the sizes of the items
before it add up to (`Layout.offset`).  The addresses run along the counter,
which the directives ORG and OFFSET may set anywhere.  The two drift apart by
what these directives did after the first item (`Layout.drift`), and by nothing
else:

    address of item j  =  address of the first item + offset of item j + drift

* `counter_eq_offset_add_drift` — at every item the counter is the offset of
  the item and the drift of all lines before it;
* `counter_final` — the same at the end of the program;
* `drift_split` — the drift before the first item is the start of the segment,
  and the rest is what stands between addresses and code;
* `addresses_account` — the account of a whole program.
-/

namespace SegmentAssembler

namespace Layout

/-- Where an item begins in the code: the sizes of the items before it. -/
def offset (l : Layout) (j : Nat) : Nat :=
  ((l.items.take j).map fun entry => entry.2.size).sum

/-- What the lines that move the counter did to it, over the lines of the given
numbers. -/
def drift (l : Layout) (p : Nat → Bool) : Int :=
  ((l.records.filter fun r => r.line.movesCounter && p r.line.number).map Record.shift).sum

/-- The line stands after the first item.  Without an item every line does. -/
def afterStart (l : Layout) (n : Nat) : Bool :=
  l.items.head?.all fun first => decide (first.1 < n)

/-- The drift strictly between the first item and a line. -/
def driftBefore (l : Layout) (n : Nat) : Int := l.drift fun k => l.afterStart k && decide (k < n)

/-- The drift after the first item. -/
def totalDrift (l : Layout) : Int := l.drift l.afterStart

/-! ### Sums over records -/

/-- Every shift is either the size of an item or the work of a moving line. -/
private theorem sum_shifts {s : State} {lines : List CodeLine} {records : List Record}
    (hsub : ∀ r ∈ records, r ∈ s.run lines) :
    (records.map Record.shift).sum =
      (((records.filterMap Record.item?).map fun entry => entry.2.size).sum : Nat) +
        ((records.filter fun r => r.line.movesCounter).map Record.shift).sum := by
  induction records with
  | nil => rfl
  | cons r rest ih =>
      have hmem : r ∈ s.run lines := hsub r List.mem_cons_self
      have hrest := ih fun other hother => hsub other (List.mem_cons_of_mem _ hother)
      rw [List.map_cons, List.sum_cons]
      -- a line has an item, or moves the counter, or leaves it alone
      cases hitem : r.item? with
      | some entry =>
          have heffect := (item?_eq_some_iff.mp hitem).2
          have hline := State.not_movesCounter_of_item hmem heffect
          have hshift := State.shift_eq_size hmem heffect
          rw [List.filterMap_cons_some hitem, List.filter_cons_of_neg (by simp [hline]),
            List.map_cons, List.sum_cons]
          omega
      | none =>
          have heffect : r.verdict.effect.item? = none := by
            simpa [Record.item?] using hitem
          rw [List.filterMap_cons_none hitem]
          cases hline : r.line.movesCounter with
          | true =>
              rw [List.filter_cons_of_pos (by simp [hline]), List.map_cons, List.sum_cons]
              omega
          | false =>
              have hshift := State.shift_eq_advance hmem hline
              simp only [Effect.advance, heffect, Option.map_none, Option.getD_none] at hshift
              rw [List.filter_cons_of_neg (by simp [hline])]
              omega

/-- The counter that a run reaches from its beginning. -/
private theorem counter_finish (lines : List CodeLine) :
    ((State.finish {} (State.run {} lines)).counter : Int) =
      ((((State.run {} lines).filterMap Record.item?).map fun entry => entry.2.size).sum : Nat) +
        (((State.run {} lines).filter fun r => r.line.movesCounter).map Record.shift).sum := by
  rw [State.counter_finish_run, sum_shifts fun r hr => hr]
  simp

/-! ### Laws of the drift -/

/-- Only the lines that move the counter are asked whether they count. -/
theorem drift_congr {l : Layout} {p q : Nat → Bool}
    (h : ∀ r ∈ l.records, r.line.movesCounter = true → p r.line.number = q r.line.number) :
    l.drift p = l.drift q := by
  unfold drift
  congr 2
  apply List.filter_congr
  intro r hr
  cases hline : r.line.movesCounter with
  | false => rfl
  | true => simp [h r hr hline]

/-- The drift of some lines is the drift of those with a property and of those
without it. -/
theorem drift_partition (l : Layout) (p q : Nat → Bool) :
    l.drift p = l.drift (fun n => q n && p n) + l.drift (fun n => !q n && p n) := by
  unfold drift
  induction l.records with
  | nil => rfl
  | cons r rest ih =>
      cases hline : r.line.movesCounter with
      | false => simpa [hline] using ih
      | true =>
          cases hp : p r.line.number with
          | false => simpa [hline, hp] using ih
          | true =>
              cases hq : q r.line.number with
              | false =>
                  simp only [hline, hp, hq, List.filter_cons, Bool.and_self, Bool.and_true,
                    Bool.not_false, Bool.and_false, if_true, Bool.false_eq_true, if_false,
                    List.map_cons, List.sum_cons] at ih ⊢
                  omega
              | true =>
                  simp only [hline, hp, hq, List.filter_cons, Bool.and_self, Bool.and_true,
                    Bool.not_true, Bool.and_false, if_true, Bool.false_eq_true, if_false,
                    List.map_cons, List.sum_cons] at ih ⊢
                  omega

/-! ### The counter at an item and at the end -/

/-- The records in front of one are those on smaller lines. -/
private theorem drift_of_split {source : Text} {front post : List Record} {r : Record}
    (h : (ofSource source).records = front ++ r :: post) :
    ((ofSource source).drift fun n => decide (n < r.line.number)) =
      ((front.filter fun r => r.line.movesCounter).map Record.shift).sum := by
  have hsorted := pairwise_line_records source
  rw [h] at hsorted
  obtain ⟨-, hback, hcross⟩ := List.pairwise_append.mp hsorted
  have hfront : (front.filter fun x => x.line.movesCounter &&
      decide (x.line.number < r.line.number)) = front.filter fun x => x.line.movesCounter := by
    apply List.filter_congr
    intro x hx
    have hlt := hcross x hx r List.mem_cons_self
    simp [hlt]
  have hpost : ((r :: post).filter fun x => x.line.movesCounter &&
      decide (x.line.number < r.line.number)) = [] := by
    apply List.filter_eq_nil_iff.mpr
    intro x hx
    have hle : r.line.number ≤ x.line.number := by
      rcases List.mem_cons.mp hx with rfl | hx
      · exact Nat.le_refl _
      · exact Nat.le_of_lt ((List.pairwise_cons.mp hback).1 x hx)
    simp [Nat.not_lt.mpr hle]
  rw [drift, h, List.filter_append, hfront, hpost, List.append_nil]

/-- The records fall apart at an item, with the earlier items in the front part. -/
theorem split_at_item {l : Layout} {j : Nat} {entry : Nat × Item} (h : l.items[j]? = some entry) :
    ∃ front r post, l.records = front ++ r :: post ∧ r.item? = some entry ∧
      front.filterMap Record.item? = l.items.take j := by
  obtain ⟨hj, hentry⟩ := List.getElem?_eq_some_iff.mp h
  have hitems : l.records.filterMap Record.item? =
      l.items.take j ++ entry :: l.items.drop (j + 1) := by
    rw [← hentry, List.getElem_cons_drop, List.take_append_drop]
    rfl
  obtain ⟨pre, rest, hrecords, hpre, hrest⟩ := List.filterMap_eq_append_iff.mp hitems
  obtain ⟨gap, r, post, rfl, hgap, hr, -⟩ := List.filterMap_eq_cons_iff.mp hrest
  refine ⟨pre ++ gap, r, post, by rw [hrecords, List.append_assoc], hr, ?_⟩
  rw [List.filterMap_append, hpre, List.filterMap_eq_nil_iff.mpr hgap, List.append_nil]

/-- **The counter at an item** is the offset of the item in the code and the
drift of all lines before it. -/
theorem counter_eq_offset_add_drift {source : Text} {j : Nat} {entry : Nat × Item}
    (h : (ofSource source).items[j]? = some entry) :
    ∃ r ∈ (ofSource source).records, r.line.number = entry.1 ∧
      r.verdict.effect.item? = some entry.2 ∧
      (r.before.counter : Int) = (ofSource source).offset j +
        (ofSource source).drift fun n => decide (n < entry.1) := by
  obtain ⟨front, r, post, hsplit, hitem, hfront⟩ := split_at_item h
  obtain ⟨hline, heffect⟩ := item?_eq_some_iff.mp hitem
  refine ⟨r, by rw [hsplit]; simp, hline, heffect, ?_⟩
  obtain ⟨before, after, -, hrun, -⟩ := State.run_split hsplit
  have hcounter := counter_finish before
  rw [hrun, hfront, ← State.before_of_run_split hsplit] at hcounter
  rw [hcounter, ← hline, drift_of_split hsplit]
  rfl

/-- **The counter at the end** is the size of all items and the drift of all
lines. -/
theorem counter_final (source : Text) :
    ((ofSource source).final.counter : Int) =
      (ofSource source).offset (ofSource source).items.length +
        (ofSource source).drift fun _ => true := by
  have hcounter := counter_finish (programLines (splitLines source))
  rw [← records_ofSource] at hcounter
  rw [offset, List.take_length, drift]
  simpa [final, items] using hcounter

/-! ### Before and after the first item -/

/-- Records without items have no first item. -/
private theorem find?_item_eq_none {records : List Record}
    (h : records.filterMap Record.item? = []) :
    records.find? (fun r => r.verdict.effect.item?.isSome) = none := by
  rw [List.find?_eq_none]
  intro r hr
  have hnone := List.filterMap_eq_nil_iff.mp h r hr
  simpa [Record.item?] using hnone

/-- A program without items starts at zero. -/
theorem startAddress_eq_zero {l : Layout} (h : l.items = []) : l.startAddress = 0 := by
  simp [startAddress, firstAddress, find?_item_eq_none h]

/-- **The segment starts at its first item.** -/
theorem addressAt?_first {source : Text} {first : Nat × Item}
    (hfirst : (ofSource source).items[0]? = some first) :
    (ofSource source).addressAt? first.1 = some (ofSource source).startAddress := by
  obtain ⟨front, r, post, hsplit, hitem, hfront⟩ := split_at_item hfirst
  obtain ⟨hline, heffect⟩ := item?_eq_some_iff.mp hitem
  have hr : r ∈ (ofSource source).records := by
    rw [hsplit]
    simp
  have hstart : (ofSource source).startAddress = r.before.counter := by
    simp [startAddress, firstAddress, hsplit, List.find?_append, find?_item_eq_none hfront,
      heffect]
  rw [hstart, ← hline]
  exact addressAt?_of_item hr heffect

/-- The start of the segment is what the moving lines before the first item did. -/
theorem startAddress_eq_drift {source : Text} {first : Nat × Item}
    (hfirst : (ofSource source).items[0]? = some first) :
    ((ofSource source).startAddress : Int) =
      (ofSource source).drift fun n => decide (n < first.1) := by
  obtain ⟨r, hr, hline, heffect, hcounter⟩ := counter_eq_offset_add_drift hfirst
  have hstart := addressAt?_first hfirst
  rw [← hline, addressAt?_of_item hr heffect, Option.some.injEq] at hstart
  have hzero : (ofSource source).offset 0 = 0 := rfl
  omega

/-- **The drift before the first item, and the drift after it.**  The first is
the start of the segment.  The line of the item itself moves nothing, so what is
not before it is after it. -/
theorem drift_split {source : Text} {first : Nat × Item}
    (hfirst : (ofSource source).items[0]? = some first) {p : Nat → Bool}
    (hp : ∀ n, n < first.1 → p n = true) :
    (ofSource source).drift p = (ofSource source).startAddress +
      (ofSource source).drift fun n => (ofSource source).afterStart n && p n := by
  obtain ⟨start, hstart, hnumber, heffect⟩ := mem_items_iff.mp (List.mem_of_getElem? hfirst)
  have hbefore : ((ofSource source).drift fun n => !(ofSource source).afterStart n && p n) =
      (ofSource source).drift fun n => decide (n < first.1) := by
    apply drift_congr
    intro r hr hline
    have hne : r.line.number ≠ first.1 := by
      intro heq
      have hsame := eq_of_number_eq hr hstart (heq.trans hnumber.symm)
      rw [hsame, State.not_movesCounter_of_item hstart heffect] at hline
      exact nomatch hline
    simp only [afterStart, List.head?_eq_getElem?, hfirst, Option.all_some]
    by_cases hlt : r.line.number < first.1
    · have hnot : ¬ first.1 < r.line.number := by omega
      simp [hlt, hnot, hp _ hlt]
    · have hafter : first.1 < r.line.number := by omega
      simp [hlt, hafter]
  rw [drift_partition _ p (ofSource source).afterStart, hbefore,
    ← startAddress_eq_drift hfirst, Int.add_comm]

/-- No item stands before the first one. -/
private theorem first_le {source : Text} {first entry : Nat × Item} {j : Nat}
    (hfirst : (ofSource source).items[0]? = some first)
    (h : (ofSource source).items[j]? = some entry) : first.1 ≤ entry.1 := by
  obtain ⟨hj, rfl⟩ := List.getElem?_eq_some_iff.mp h
  obtain ⟨h0, rfl⟩ := List.getElem?_eq_some_iff.mp hfirst
  rcases Nat.eq_zero_or_pos j with rfl | hpos
  · exact Nat.le_refl _
  · exact Nat.le_of_lt (List.pairwise_iff_getElem.mp (pairwise_items source) 0 j h0 hj hpos)

/-- **Addresses against offsets.**  The address of an item is the start of the
segment, the offset of the item and the drift in between. -/
theorem address_eq {source : Text} {j : Nat} {entry : Nat × Item}
    (h : (ofSource source).items[j]? = some entry) :
    ∃ a, (ofSource source).addressAt? entry.1 = some a ∧
      (a : Int) = (ofSource source).startAddress + (ofSource source).offset j +
        (ofSource source).driftBefore entry.1 := by
  obtain ⟨hj, -⟩ := List.getElem?_eq_some_iff.mp h
  obtain ⟨first, hfirst⟩ : ∃ first, (ofSource source).items[0]? = some first :=
    ⟨_, List.getElem?_eq_getElem (by omega)⟩
  have hle := first_le hfirst h
  obtain ⟨r, hr, hline, heffect, hcounter⟩ := counter_eq_offset_add_drift h
  refine ⟨r.before.counter, by rw [← hline]; exact addressAt?_of_item hr heffect, ?_⟩
  rw [hcounter, drift_split hfirst fun n hn => decide_eq_true (by omega), driftBefore]
  omega

/-- **The end against the code.**  Whatever its items, a program ends at its
start, the size of the code and the drift after the first item. -/
theorem counter_final_eq (source : Text) :
    ((ofSource source).final.counter : Int) =
      (ofSource source).startAddress + (ofSource source).offset (ofSource source).items.length +
        (ofSource source).totalDrift := by
  have hall : ((ofSource source).drift fun _ => true) =
      (ofSource source).startAddress + (ofSource source).totalDrift := by
    cases hitems : (ofSource source).items with
    | nil =>
        rw [startAddress_eq_zero hitems, Int.natCast_zero, Int.zero_add]
        apply drift_congr
        intro r hr hline
        simp [afterStart, hitems]
    | cons first rest =>
        have hfirst : (ofSource source).items[0]? = some first := by
          rw [hitems]
          rfl
        rw [drift_split hfirst fun _ _ => rfl]
        simp only [Bool.and_true]
        rfl
  rw [counter_final, hall]
  omega

/-! ### The length of the segment and the code -/

/-- The length is exact unless a missing length was reported. -/
theorem segmentLength_eq {l : Layout}
    (h : ∀ n length, (n, (Diagnostic.segmentLength length).asError) ∉ l.findings) :
    (l.segmentLength : Int) = l.final.counter - l.startAddress := by
  have hlow : 0 ≤ l.extent := by
    by_contra hneg
    apply h l.lastLine l.extent
    refine List.mem_append_right _ ?_
    simp [lengthFindings, Int.not_le.mp hneg]
  rw [segmentLength, Int.toNat_of_nonneg hlow]
  rfl

/-- **Where an item begins in the code.** -/
theorem bytes_at_offset {source : Text}
    (hall : ∀ entry ∈ (ofSource source).items,
      ∃ e, entry.2.encode (ofSource source).names = .ok e)
    {j : Nat} {entry : Nat × Item} (h : (ofSource source).items[j]? = some entry) :
    ∃ e, entry.2.encode (ofSource source).names = .ok e ∧ e.bytes.length = entry.2.size ∧
      e.bytes <+: (ofSource source).image.body.drop ((ofSource source).offset j) := by
  obtain ⟨e, hcode⟩ := hall entry (List.mem_of_getElem? h)
  refine ⟨e, hcode, length_of_encode (List.mem_of_getElem? h) hcode, ?_⟩
  obtain ⟨hj, hentry⟩ := List.getElem?_eq_some_iff.mp h
  have hitems : (ofSource source).items =
      (ofSource source).items.take j ++ entry :: (ofSource source).items.drop (j + 1) := by
    rw [← hentry, List.getElem_cons_drop, List.take_append_drop]
  have hbefore : (Image.ofItems (ofSource source).names
      ((ofSource source).items.take j)).body.length = (ofSource source).offset j := by
    refine Image.length_body_ofItems fun other hother => ?_
    have hmem := List.mem_of_mem_take hother
    obtain ⟨e', hcode'⟩ := hall other hmem
    exact ⟨e', hcode', length_of_encode hmem hcode'⟩
  have hbody : (ofSource source).image.body =
      (Image.ofItems (ofSource source).names ((ofSource source).items.take j)).body ++
        (e.bytes ++ (Image.ofItems (ofSource source).names
          ((ofSource source).items.drop (j + 1))).body) := by
    rw [← Image.body_ofItems_cons hcode, ← Image.body_ofItems_append, ← hitems]
    rfl
  rw [hbody, ← hbefore, List.drop_left]
  exact List.prefix_append _ _

/-- The object record holds the length of the segment as it is. -/
theorem toNat_segmentLength_objectRecord (source : Text) :
    (ofSource source).objectRecord.segmentLength.toNat = (ofSource source).segmentLength := by
  have hfinal : (ofSource source).final.counter ≤ topAddress :=
    State.counter_finish_le_top (Nat.zero_le _) _
  have hle : (ofSource source).segmentLength ≤ topAddress := by
    unfold segmentLength extent
    omega
  exact UInt16.toNat_ofNat_of_lt' (Nat.lt_of_le_of_lt hle (by decide))

/-- Addresses follow the code exactly if nothing moved the counter in between. -/
theorem offset_eq_address_iff (source : Text) :
    (∀ j entry, (ofSource source).items[j]? = some entry →
        ∃ a, (ofSource source).addressAt? entry.1 = some a ∧
          ((ofSource source).offset j : Int) = a - (ofSource source).startAddress) ↔
      ∀ entry ∈ (ofSource source).items, (ofSource source).driftBefore entry.1 = 0 := by
  constructor
  · intro hfollow entry hentry
    obtain ⟨j, hj⟩ := List.mem_iff_getElem?.mp hentry
    obtain ⟨a, ha, haddress⟩ := address_eq hj
    obtain ⟨a', ha', hoffset⟩ := hfollow j entry hj
    rw [ha, Option.some.injEq] at ha'
    omega
  · intro hdrift j entry h
    obtain ⟨a, ha, haddress⟩ := address_eq h
    have hzero := hdrift entry (List.mem_of_getElem? h)
    exact ⟨a, ha, by omega⟩

/-- Without errors, the record gives the length of the code exactly if nothing
moved the counter after the first item. -/
theorem segmentLength_eq_length_body_iff {source : Text}
    (hclean : (ofSource source).report.hasErrors = false) :
    (ofSource source).objectRecord.segmentLength.toNat =
        (ofSource source).objectRecord.body.length ↔ (ofSource source).totalDrift = 0 := by
  have hlength : ((ofSource source).segmentLength : Int) =
      (ofSource source).final.counter - (ofSource source).startAddress := by
    apply segmentLength_eq
    intro n length hfound
    exact Report.hasErrors_ofFindings_eq_false_iff.mp hclean _
      (List.mem_append_left _ hfound) rfl
  have hfinal := counter_final_eq source
  have hbody : (ofSource source).objectRecord.body.length =
      (ofSource source).offset (ofSource source).items.length := by
    rw [offset, List.take_length]
    exact length_body (exists_encode_of_no_errors hclean)
  rw [toNat_segmentLength_objectRecord, hbody]
  omega

/-- An assembly is read off the layout of its source. -/
theorem eq_ofLayout_of_assemble? {source : Text} {c : Assembly} (h : assemble? source = some c) :
    c = .ofLayout (ofSource source) := by
  unfold assemble? at h
  split at h
  · exact nomatch h
  · cases h
    rfl

/-- **Address accounting.**  In the order of their lines, the address of an
item is the address of the first one, the sizes of the items in between and
what the moving lines in between did to the counter.  Unless a missing length
is reported, the length of the segment is made up in the same way, and without
items it is the last value of the counter.  So in an assembly without errors,
where every item begins in the code at the sizes before it, addresses follow
the code exactly if no drift stands before an item, and the length in the
object record is that of the code exactly if there is no drift at all. -/
theorem addresses_account (source : Text) :
    let l := ofSource source
    (l.items.map Prod.fst).Pairwise (· < ·) ∧
    (∀ first, l.items[0]? = some first → ∀ j entry, l.items[j]? = some entry →
      ∃ a₁ a, l.addressAt? first.1 = some a₁ ∧ l.addressAt? entry.1 = some a ∧
        (a : Int) = a₁ + l.offset j + l.driftBefore entry.1) ∧
    ((∀ n length, (n, (Diagnostic.segmentLength length).asError) ∉ l.findings) →
      (l.items = [] → l.segmentLength = l.final.counter) ∧
      (l.items ≠ [] → (l.segmentLength : Int) = l.offset l.items.length + l.totalDrift)) ∧
    (∀ c, assemble? source = some c → c.report.hasErrors = false →
      c.objectBytes = some l.objectRecord.toBytes ∧
      (∀ j entry, l.items[j]? = some entry →
        ∃ e, entry.2.encode l.names = .ok e ∧ e.bytes.length = entry.2.size ∧
          e.bytes <+: l.objectRecord.body.drop (l.offset j)) ∧
      ((∀ j entry, l.items[j]? = some entry →
          ∃ a, l.addressAt? entry.1 = some a ∧ (l.offset j : Int) = a - l.startAddress) ↔
        ∀ entry ∈ l.items, l.driftBefore entry.1 = 0) ∧
      (l.objectRecord.segmentLength.toNat = l.objectRecord.body.length ↔ l.totalDrift = 0)) := by
  refine ⟨List.pairwise_map.mpr (pairwise_items source), ?_, ?_, ?_⟩
  · intro first hfirst j entry h
    obtain ⟨a, ha, haddress⟩ := address_eq h
    exact ⟨_, a, addressAt?_first hfirst, ha, haddress⟩
  · intro hlength
    have hextent := segmentLength_eq hlength
    have hfinal := counter_final_eq source
    refine ⟨fun hnil => ?_, fun _ => by omega⟩
    have hzero := startAddress_eq_zero hnil
    omega
  · intro c hc hclean
    obtain rfl := eq_ofLayout_of_assemble? hc
    have hreport : (ofSource source).report.hasErrors = false := hclean
    refine ⟨?_, fun j entry h => ?_, offset_eq_address_iff source,
      segmentLength_eq_length_body_iff hreport⟩
    · simp [Assembly.ofLayout, hreport]
    · exact bytes_at_offset (exists_encode_of_no_errors hreport) h

/-- Two bytes of data, code ten bytes up and a step back behind it: the second
item stands eight bytes further on than its place in the code, and the length
in the record is six bytes more than that of the code. -/
theorem addresses_account_after_org :
    let source := "S SEGMENT\nX DW 1\nORG 10\nMOV AX, X\nOFFSET -2\nS ENDS".toList
    let l := ofSource source
    assemble? source = some (.ofLayout l) ∧ (Assembly.ofLayout l).report.hasErrors = false ∧
    l.items.map Prod.fst = [2, 4] ∧ l.driftBefore 4 = 8 ∧ l.totalDrift = 6 ∧
    (∃ a₁ a, l.addressAt? 2 = some a₁ ∧ l.addressAt? 4 = some a ∧
      (a : Int) = a₁ + l.offset 1 + l.driftBefore 4) ∧
    l.objectRecord.segmentLength.toNat ≠ l.objectRecord.body.length := by
  intro source l
  have hclean : (Assembly.ofLayout l).report.hasErrors = false := by decide
  have haccount := addresses_account source
  refine ⟨rfl, hclean, rfl, rfl, rfl, haccount.2.1 _ rfl 1 _ rfl, ?_⟩
  intro hlength
  exact absurd ((haccount.2.2.2 _ rfl hclean).2.2.2.mp hlength) (by decide)

end Layout

end SegmentAssembler
