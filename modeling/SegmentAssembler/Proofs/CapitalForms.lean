import SegmentAssembler.Proofs.NameLetters

/-!
# A capital form has no other capital form

The capital form of a text is taken once and for all: capitals, and the letters
that stand for one character together, are left alone (`upper_upper`).

In ASCII this is a fact about 26 letters.  For the table it is a fact about
every pair of its rows: what a row yields must not be a small letter of any row.
A row is an interval of code points, so for most pairs it is enough that one
interval ends before the other begins.  Where they overlap, both run through
every second code point, and capitals and small letters take turns
(`LetterRun.isDisjoint`).

* `LetterRun.covers_of_isDisjoint`, `LetterRun.covers_capitals` — what the check of
  two rows means for their letters;
* `table_settled` — the check, made for all pairs of rows;
* `capital_of_mem_capital` — so a letter of a capital form has no other one.
-/

namespace SegmentAssembler.Text

/-! ### Rows of the table -/

namespace LetterRun

/-- The run of the capitals. -/
def capitals (r : LetterRun) : LetterRun :=
  ⟨(r.first + r.offset).toNat, (r.last + r.offset).toNat, r.stride, 0⟩

/-- A character by itself. -/
def single (n : Nat) : LetterRun := ⟨n, n, 1, 0⟩

/-- All code points of the run are even, or all of them are odd. -/
def isUniform (r : LetterRun) : Bool := r.stride.beq 2 || r.first.beq r.last

/-- The runs have no letter in common: one ends before the other begins, or the
letters of one stand between those of the other. -/
def isDisjoint (r s : LetterRun) : Bool :=
  r.last.blt s.first || s.last.blt r.first ||
    (r.isUniform && s.isUniform && !(r.first % 2).beq (s.first % 2))

variable {r s : LetterRun} {n : Nat}

/-- A row covers the letters at its stride, from its first to its last. -/
theorem covers_iff :
    r.covers n = true ↔ r.first ≤ n ∧ n ≤ r.last ∧ (n - r.first) % r.stride = 0 := by
  simp [covers, and_assoc]

theorem covers_single : (single n).covers n = true := by
  simp [covers_iff, single]

/-- The letters of a uniform run have the parity of the first. -/
theorem mod_two_of_isUniform (h : r.isUniform = true) (hn : r.covers n = true) :
    n % 2 = r.first % 2 := by
  rw [covers_iff] at hn
  simp only [isUniform, Bool.or_eq_true, Nat.beq_eq] at h
  rcases h with hstride | hsingle
  · rw [hstride] at hn
    omega
  · omega

/-- **Disjoint runs** have no letter in common. -/
theorem covers_of_isDisjoint (h : r.isDisjoint s = true) (hn : r.covers n = true) :
    s.covers n = false := by
  rw [← Bool.not_eq_true]
  intro hother
  have hrange := covers_iff.mp hn
  have hrange' := covers_iff.mp hother
  simp only [isDisjoint, Bool.or_eq_true, Bool.and_eq_true, Bool.not_eq_true', Nat.blt_eq] at h
  rcases h with (hbefore | hbehind) | ⟨⟨hr, hs⟩, hparity⟩
  · omega
  · omega
  · have hsame := mod_two_of_isUniform hr hn
    have hsame' := mod_two_of_isUniform hs hother
    have hdiffer := Nat.ne_of_beq_eq_false hparity
    omega

/-- The capital of a letter of the run is one of its capitals. -/
theorem covers_capitals (hpos : 0 < r.capitals.first) (hn : r.covers n = true) :
    r.capitals.covers (n + r.offset).toNat = true := by
  rw [covers_iff] at hn ⊢
  simp only [capitals] at hpos ⊢
  have hsame : (n + r.offset).toNat - (r.first + r.offset).toNat = n - r.first := by omega
  rw [hsame]
  exact ⟨by omega, by omega, hn.2.2⟩

end LetterRun

/-- The characters that have another capital form: the small letters of ASCII,
those of the table, and the characters that become several letters. -/
def smallLetters : List LetterRun :=
  ⟨0x61, 0x7A, 1, -32⟩ :: letterRuns ++ letterGroups.map fun group => .single group.1

/-- The letters of capital forms, as the table yields them. -/
def capitalLetters : List LetterRun :=
  letterRuns.map LetterRun.capitals ++ letterGroups.flatMap fun group => group.2.map .single

/-- **The table is settled.**  No letter that it yields has another capital form. -/
theorem table_settled :
    (capitalLetters.all fun r => (0).blt r.first && smallLetters.all r.isDisjoint) = true := by
  decide +kernel

/-! ### Capital forms of characters -/

/-- A character that is no small letter stays as it is. -/
theorem capital_of_not_covers {c : Char} (h : ∀ s ∈ smallLetters, s.covers c.toNat = false) :
    capital c = [c] := by
  by_cases hascii : c.toNat < 128
  · have hnot := h ⟨0x61, 0x7A, 1, -32⟩ List.mem_cons_self
    rw [capital_of_ascii hascii, Char.toUpper_eq_of_not_isLower]
    intro hlower
    simp only [Char.isLower, Bool.and_eq_true, decide_eq_true_eq, UInt32.le_iff_toNat_le,
      ge_iff_le] at hlower
    rw [LetterRun.covers_iff.mpr ⟨hlower.1, hlower.2, Nat.mod_one _⟩] at hnot
    cases hnot
  · have hgroup : letterGroups.lookup c.toNat = none := by
      rw [List.lookup_eq_none_iff]
      intro group hmem
      rw [bne_iff_ne]
      intro heq
      have hnot := h (.single group.1) (List.mem_append_right _ (List.mem_map_of_mem hmem))
      rw [heq, LetterRun.covers_single] at hnot
      cases hnot
    have hrun : letterRuns.find? (·.covers c.toNat) = none := by
      rw [List.find?_eq_none]
      intro r hmem hcovers
      rw [h r (List.mem_append_left _ (List.mem_cons_of_mem _ hmem))] at hcovers
      cases hcovers
    rw [capital, if_neg hascii, capitalByTable, hgroup]
    simp only [hrun]

/-- What the table yields stays as it is. -/
theorem capital_ofNat {r : LetterRun} {n : Nat} (hr : r ∈ capitalLetters)
    (hn : r.covers n = true) : capital (Char.ofNat n) = [Char.ofNat n] := by
  have hsettled := List.all_eq_true.mp table_settled r hr
  rw [Bool.and_eq_true, List.all_eq_true] at hsettled
  by_cases hvalid : n.isValidChar
  · apply capital_of_not_covers
    rw [Char.toNat_ofNat, if_pos hvalid]
    intro s hs
    exact LetterRun.covers_of_isDisjoint (hsettled.2 s hs) hn
  · have hnul : Char.ofNat n = '\x00' := by
      rw [Char.ofNat, dif_neg hvalid]
      rfl
    rw [hnul]
    decide

/-- **A letter of a capital form has no other capital form.** -/
theorem capital_of_mem_capital {c d : Char} (h : d ∈ capital c) : capital d = [d] := by
  by_cases hascii : c.toNat < 128
  · have hall : ∀ n < 128, capital (Char.ofNat n).toUpper = [(Char.ofNat n).toUpper] := by decide
    have hc := hall c.toNat hascii
    rw [Char.ofNat_toNat] at hc
    rw [capital_of_ascii hascii, List.mem_singleton] at h
    rw [h, hc]
  · rw [capital, if_neg hascii, capitalByTable] at h
    split at h
    · rename_i letters hgroup
      obtain ⟨n, hn, rfl⟩ := List.mem_map.mp h
      obtain ⟨before, after, hsplit, -⟩ := List.lookup_eq_some_iff.mp hgroup
      have hmem : (c.toNat, letters) ∈ letterGroups := by simp [hsplit]
      have hletter : LetterRun.single n ∈ capitalLetters :=
        List.mem_append_right _
          (List.mem_flatMap.mpr ⟨_, hmem, List.mem_map_of_mem hn⟩)
      exact capital_ofNat hletter LetterRun.covers_single
    · rename_i hgroup
      split at h
      · rename_i r hr
        rw [List.mem_singleton] at h
        have hcapitals : r.capitals ∈ capitalLetters :=
          List.mem_append_left _ (List.mem_map_of_mem (List.mem_of_find?_eq_some hr))
        have hsettled := List.all_eq_true.mp table_settled _ hcapitals
        rw [Bool.and_eq_true, Nat.blt_eq] at hsettled
        have hcovers := List.find?_some hr
        rw [h]
        exact capital_ofNat hcapitals (LetterRun.covers_capitals hsettled.1 hcovers)
      · rename_i hr
        rw [List.mem_singleton] at h
        rw [h, capital, if_neg hascii, capitalByTable, hgroup]
        simp only [hr]

/-! ### Capital forms of texts -/

/-- Letters that are their own capital forms stay as they are. -/
theorem upper_of_settled {t : Text} (h : ∀ d ∈ t, capital d = [d]) : upper t = t := by
  induction t with
  | nil => rfl
  | cons d t ih =>
      rw [upper_cons, h d List.mem_cons_self, ih fun e he => h e (List.mem_cons_of_mem _ he)]
      rfl

/-- **A capital form has no other capital form.** -/
theorem upper_upper (t : Text) : upper (upper t) = upper t := by
  apply upper_of_settled
  intro d hd
  obtain ⟨c, -, hc⟩ := List.mem_flatMap.mp hd
  exact capital_of_mem_capital hc

end SegmentAssembler.Text
