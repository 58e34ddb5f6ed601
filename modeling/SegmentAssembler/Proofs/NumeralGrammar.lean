import Mathlib.Data.Nat.Digits.Defs
import SegmentAssembler.Proofs.SourceEditing
import SegmentAssembler.Proofs.SpelledRuns

/-!
# The grammar of numerals

What a numeral is and which number it denotes, without a reader:

    sign    digits          digits in base ten
    sign    digits  mark    digits in base sixteen, the mark is `H` or `h`

where the sign is missing, a plus or a minus, and there is at least one digit.
The digits denote a number by their places (`Nat.ofDigits`), and there is no
limit to it here: the reader adds the limits of a signed 32-bit word, and
accepts nothing else.

* `magnitude?_eq_some_iff`, `signed?_eq_some_iff`, `read?_eq_some_iff` — the reader
  reads exactly the grammar, piece by piece;
* `Denotes.unique` — a numeral denotes one number, so that one beyond the limits
  is not read as another;
* `makesUp_toDigits` — digits that were written for a number denote it;
* `numerals_read_exactly` — the whole, for every text.
-/

namespace SegmentAssembler.Numeral

/-! ### The grammar -/

/-- The character is the digit for the number; letters stand in either case. -/
def IsDigitFor (c : Char) (d : Nat) : Prop :=
  d < 16 ∧ (c = Nat.digitChar d ∨ c = (Nat.digitChar d).toUpper)

/-- One or more digits of the base, the highest place first, that make up the number. -/
def MakesUp (base : Nat) (digits : Text) (n : Nat) : Prop :=
  ∃ places : List Nat, places ≠ [] ∧ (∀ d ∈ places, d < base) ∧
    List.Forall₂ IsDigitFor digits places ∧ Nat.ofDigits base places.reverse = n

/-- What may stand before the digits. -/
inductive Sign where
  | missing
  | plus
  | minus
deriving DecidableEq, Repr

namespace Sign

def text : Sign → Text
  | missing => []
  | plus => ['+']
  | minus => ['-']

/-- The number with this sign. -/
def number : Sign → Nat → Int
  | minus, n => -n
  | _, n => n

end Sign

/-- The text is a numeral for the number, be it as large as it may. -/
inductive Denotes : Text → Int → Prop
  | decimal (s : Sign) {digits : Text} {n : Nat} (h : MakesUp 10 digits n) :
      Denotes (s.text ++ digits) (s.number n)
  | hexadecimal (s : Sign) {digits : Text} {n : Nat} {mark : Char} (h : MakesUp 16 digits n)
      (hmark : mark = 'H' ∨ mark = 'h') : Denotes (s.text ++ digits ++ [mark]) (s.number n)

/-! ### Digits -/

/-- A digit and its value. -/
theorem isDigitFor_iff {c : Char} {d : Nat} : IsDigitFor c d ↔ digitValue c = d ∧ d < 16 := by
  constructor
  · intro h
    obtain ⟨hd, hc⟩ := h
    have hsmall : ∀ n < 16, digitValue (Nat.digitChar n) = n := by decide
    refine ⟨?_, hd⟩
    rcases hc with rfl | rfl
    · exact hsmall d hd
    · rw [digitValue_toUpper]
      exact hsmall d hd
  · intro h
    obtain ⟨rfl, hd⟩ := h
    -- the digits are among the first 128 characters, which can be tried
    have hall : ∀ n < 128, digitValue (Char.ofNat n) < 16 →
        Char.ofNat n = Nat.digitChar (digitValue (Char.ofNat n)) ∨
          Char.ofNat n = (Nat.digitChar (digitValue (Char.ofNat n))).toUpper := by decide
    have hrange := toNat_of_digitValue_lt hd
    have hc := hall c.toNat (by omega)
    rw [Char.ofNat_toNat] at hc
    exact ⟨hd, hc hd⟩

/-- The number of a sequence of digits, place by place. -/
theorem value_eq_ofDigits (base : Nat) (digits : Text) :
    value base digits = Nat.ofDigits base (digits.map digitValue).reverse := by
  induction digits using List.reverseRecOn with
  | nil => rfl
  | append_singleton digits c ih =>
      have hlast : value base (digits ++ [c]) = base * value base digits + digitValue c := by
        simp [value]
      rw [hlast, ih, List.map_append, List.reverse_append, List.map_singleton,
        List.reverse_singleton, List.singleton_append, Nat.ofDigits_cons]
      simp [Nat.add_comm]

/-- The digits of a number, by their values. -/
theorem makesUp_iff {base : Nat} (hbase : base ≤ 16) {digits : Text} {n : Nat} :
    MakesUp base digits n ↔
      digits ≠ [] ∧ (∀ c ∈ digits, digitValue c < base) ∧ value base digits = n := by
  rw [value_eq_ofDigits]
  constructor
  · intro h
    obtain ⟨places, hne, hlt, hdigits, rfl⟩ := h
    have hplaces : places = digits.map digitValue := by
      clear hne hlt
      induction hdigits with
      | nil => rfl
      | cons hc _ ih => rw [List.map_cons, (isDigitFor_iff.mp hc).1, ih]
    subst hplaces
    exact ⟨by simpa using hne, fun c hc => hlt _ (List.mem_map_of_mem hc), rfl⟩
  · intro h
    obtain ⟨hne, hlt, hvalue⟩ := h
    refine ⟨digits.map digitValue, by simpa using hne, by simpa using hlt, ?_, hvalue⟩
    rw [List.forall₂_map_right_iff, List.forall₂_same]
    intro c hc
    exact isDigitFor_iff.mpr ⟨rfl, Nat.lt_of_lt_of_le (hlt c hc) hbase⟩

/-- **One or more digits are read as the number that they make up.** -/
theorem magnitude?_eq_some_iff {base : Nat} (hbase : base ≤ 16) {digits : Text} {n : Nat} :
    magnitude? base digits = some n ↔ MakesUp base digits n := by
  simp [makesUp_iff hbase, magnitude?, isDigit, and_assoc]

namespace MakesUp

variable {base n m : Nat} {digits digits' : Text}

/-- No digit is a sign or a mark. -/
theorem not_mem (hbase : base ≤ 16) (h : MakesUp base digits n) {c : Char}
    (hc : base ≤ digitValue c) : c ∉ digits := by
  intro hmem
  have hlt := ((makesUp_iff hbase).mp h).2.1 c hmem
  omega

/-- Digits make up one number only. -/
theorem unique (hbase : base ≤ 16) (h : MakesUp base digits n) (h' : MakesUp base digits m) :
    n = m := by
  rw [← magnitude?_eq_some_iff hbase] at h h'
  exact Option.some.inj (h.symm.trans h')

/-- One more digit after the others. -/
theorem concat (hbase : base ≤ 16) (h : MakesUp base digits n) {d : Nat} (hd : d < base) :
    MakesUp base (digits ++ [Nat.digitChar d]) (base * n + d) := by
  obtain ⟨places, -, hlt, hdigits, rfl⟩ := h
  refine ⟨places ++ [d], by simp, ?_, ?_, ?_⟩
  · intro e he
    rcases List.mem_append.mp he with he | he
    · exact hlt e he
    · rw [List.mem_singleton.mp he]
      exact hd
  · exact List.rel_append hdigits (.cons ⟨by omega, Or.inl rfl⟩ .nil)
  · rw [List.reverse_append, List.reverse_singleton, List.singleton_append, Nat.ofDigits_cons]
    exact Nat.add_comm _ _

end MakesUp

/-- **Digits that were written for a number make it up.** -/
theorem makesUp_toDigits {base : Nat} (hlow : 1 < base) (hbase : base ≤ 16) (n : Nat) :
    MakesUp base (Nat.toDigits base n) n := by
  induction n using Nat.strongRecOn with
  | ind n ih =>
      by_cases hn : n < base
      · rw [Nat.toDigits_of_lt_base hn]
        exact ⟨[n], by simp, by simpa using hn, .cons ⟨by omega, Or.inl rfl⟩ .nil, by simp⟩
      · rw [Nat.toDigits_of_base_le hlow (by omega)]
        have hfront := ih (n / base) (Nat.div_lt_self (by omega) hlow)
        have hall := hfront.concat hbase (Nat.mod_lt n (by omega))
        rwa [Nat.div_add_mod] at hall

/-! ### Signs -/

/-- The sign and the digits of a numeral can be told apart. -/
theorem Sign.text_append_inj {base base' n n' : Nat} (hbase : base ≤ 16) (hbase' : base' ≤ 16)
    {s s' : Sign} {digits digits' : Text} (h : MakesUp base digits n)
    (h' : MakesUp base' digits' n') (heq : s.text ++ digits = s'.text ++ digits') :
    s = s' ∧ digits = digits' := by
  have hplus : '+' ∉ digits ∧ '+' ∉ digits' := ⟨h.not_mem hbase hbase, h'.not_mem hbase' hbase'⟩
  have hminus : '-' ∉ digits ∧ '-' ∉ digits' := ⟨h.not_mem hbase hbase, h'.not_mem hbase' hbase'⟩
  cases s <;> cases s' <;> simp only [Sign.text, List.nil_append, List.singleton_append] at heq
  all_goals grind

/-- Digits behind a sign are read as the number with this sign, within 32 bits. -/
theorem signed?_append {base n : Nat} (hbase : base ≤ 16) (s : Sign) {digits : Text}
    (h : MakesUp base digits n) :
    signed? base (s.text ++ digits) = (some (s.number n)).filter fits := by
  have hmagnitude := (magnitude?_eq_some_iff hbase).mpr h
  cases s with
  | minus => simp [Sign.text, Sign.number, signed?, hmagnitude]
  | plus => simp [Sign.text, Sign.number, signed?, hmagnitude]
  | missing =>
      have hplus : '+' ∉ digits := h.not_mem hbase hbase
      have hminus : '-' ∉ digits := h.not_mem hbase hbase
      cases digits with
      | nil => exact absurd rfl ((makesUp_iff hbase).mp h).1
      | cons c rest =>
          rw [List.mem_cons, not_or] at hplus hminus
          simp [Sign.text, Sign.number, signed?, hmagnitude, Ne.symm hplus.1, Ne.symm hminus.1]

/-- **A sign and digits are read as the number that they denote**, if it fits. -/
theorem signed?_eq_some_iff {base : Nat} (hbase : base ≤ 16) {t : Text} {v : Int} :
    signed? base t = some v ↔
      ∃ s digits n, t = Sign.text s ++ digits ∧ MakesUp base digits n ∧ v = s.number n ∧
        fits v = true := by
  constructor
  · intro h
    unfold signed? at h
    split at h
    all_goals
      obtain ⟨hv, hfits⟩ := Option.filter_eq_some_iff.mp h
      obtain ⟨w, hw, hv⟩ := Option.map_eq_some_iff.mp hv
      obtain ⟨n, hn, hw⟩ := Option.bind_eq_some_iff.mp hw
      cases hw
      have hdigits := (magnitude?_eq_some_iff hbase).mp hn
    · exact ⟨.minus, _, n, rfl, hdigits, hv.symm, hfits⟩
    · exact ⟨.plus, _, n, rfl, hdigits, hv.symm, hfits⟩
    · exact ⟨.missing, _, n, rfl, hdigits, hv.symm, hfits⟩
  · intro h
    obtain ⟨s, digits, n, rfl, hdigits, rfl, hfits⟩ := h
    rw [signed?_append hbase s hdigits, Option.filter_some, if_pos hfits]

/-! ### Numerals -/

/-- The numbers that fit are those of thirty-two bits with a sign. -/
theorem fits_iff {v : Int} : fits v = true ↔ -2 ^ 31 ≤ v ∧ v ≤ 2 ^ 31 - 1 := by
  simp [fits]

/-- A numeral of base ten has no mark at its end. -/
theorem isHex_eq_false_of_decimal {s : Sign} {digits : Text} {n : Nat} (h : MakesUp 10 digits n) :
    isHex (s.text ++ digits) = false := by
  have hne : digits ≠ [] := ((makesUp_iff (by decide)).mp h).1
  have hupper : 'H' ∉ digits := h.not_mem (by decide) (by decide)
  have hlower : 'h' ∉ digits := h.not_mem (by decide) (by decide)
  have hlast : (s.text ++ digits).getLast? = digits.getLast? := by
    rw [List.getLast?_append_of_ne_nil _ hne]
  simp only [isHex, hlast, Bool.or_eq_false_iff, beq_eq_false_iff_ne]
  exact ⟨fun h => hupper (List.mem_of_getLast? h), fun h => hlower (List.mem_of_getLast? h)⟩

/-- Hexadecimal numerals are known by their last letter, in either case. -/
theorem isHex_concat_iff {t : Text} {mark : Char} :
    isHex (t ++ [mark]) = true ↔ mark = 'H' ∨ mark = 'h' := by
  simp [isHex]

/-- **Exactly the numerals that fit are read**, as the number that they denote. -/
theorem read?_eq_some_iff {t : Text} {v : Int} :
    read? t = some v ↔ Denotes t v ∧ fits v = true := by
  constructor
  · intro h
    unfold read? at h
    split at h
    · rename_i hhex
      obtain ⟨s, digits, n, ht, hdigits, rfl, hfits⟩ := (signed?_eq_some_iff (by decide)).mp h
      obtain rfl | ⟨front, mark, rfl⟩ := List.eq_nil_or_concat' t
      · cases hhex
      · rw [List.dropLast_concat] at ht
        subst ht
        exact ⟨.hexadecimal s hdigits (isHex_concat_iff.mp hhex), hfits⟩
    · obtain ⟨s, digits, n, rfl, hdigits, rfl, hfits⟩ := (signed?_eq_some_iff (by decide)).mp h
      exact ⟨.decimal s hdigits, hfits⟩
  · intro h
    obtain ⟨hdenotes, hfits⟩ := h
    cases hdenotes with
    | decimal s hdigits =>
        rw [read?, isHex_eq_false_of_decimal hdigits, if_neg Bool.false_ne_true,
          signed?_append (by decide) s hdigits, Option.filter_some, if_pos hfits]
    | hexadecimal s hdigits hmark =>
        rw [read?, if_pos (isHex_concat_iff.mpr hmark), List.dropLast_concat,
          signed?_append (by decide) s hdigits, Option.filter_some, if_pos hfits]

/-- **A numeral denotes one number.** -/
theorem Denotes.unique {t : Text} {v w : Int} (hv : Denotes t v) (hw : Denotes t w) : v = w := by
  have hten : 10 ≤ 16 := by decide
  cases hv with
  | decimal s hdigits =>
      generalize ht : Sign.text s ++ _ = t at hw
      cases hw with
      | decimal s' hdigits' =>
          obtain ⟨rfl, rfl⟩ := Sign.text_append_inj hten hten hdigits hdigits' ht
          rw [hdigits.unique hten hdigits']
      | hexadecimal s' hdigits' hmark =>
          have hhex := isHex_eq_false_of_decimal (s := s) hdigits
          rw [ht, isHex_concat_iff.mpr hmark] at hhex
          cases hhex
  | hexadecimal s hdigits hmark =>
      generalize ht : Sign.text s ++ _ ++ _ = t at hw
      cases hw with
      | decimal s' hdigits' =>
          have hhex := isHex_eq_false_of_decimal (s := s') hdigits'
          rw [← ht, isHex_concat_iff.mpr hmark] at hhex
          cases hhex
      | hexadecimal s' hdigits' hmark' =>
          have hfront := (List.append_inj' ht rfl).1
          obtain ⟨rfl, rfl⟩ :=
            Sign.text_append_inj (Nat.le_refl 16) (Nat.le_refl 16) hdigits hdigits' hfront
          rw [hdigits.unique (Nat.le_refl 16) hdigits']

/-! ### Numerals that were written -/

/-- The digits of a number in a base, after a minus sign for negative numbers. -/
def signedDigits (base : Nat) : Int → Text
  | .ofNat n => Nat.toDigits base n
  | .negSucc n => '-' :: Nat.toDigits base (n + 1)

/-- The written form is a sign and the digits of a number. -/
theorem exists_sign_signedDigits (base : Nat) (hlow : 1 < base) (hbase : base ≤ 16) (v : Int) :
    ∃ (s : Sign) (digits : Text) (n : Nat), signedDigits base v = s.text ++ digits ∧
      MakesUp base digits n ∧ s.number n = v := by
  cases v with
  | ofNat n => exact ⟨.missing, _, n, rfl, makesUp_toDigits hlow hbase n, rfl⟩
  | negSucc n => exact ⟨.minus, _, n + 1, rfl, makesUp_toDigits hlow hbase (n + 1), rfl⟩

/-- Every number has a decimal numeral. -/
theorem denotes_signedDecimal (v : Int) : Denotes (signedDecimal v) v := by
  have hsame : signedDecimal v = signedDigits 10 v := by cases v <;> rfl
  obtain ⟨s, digits, n, htext, hdigits, rfl⟩ :=
    exists_sign_signedDigits 10 (by decide) (by decide) v
  rw [hsame, htext]
  exact .decimal s hdigits

/-- Every number has a hexadecimal numeral. -/
theorem denotes_signedDigits_mark (v : Int) : Denotes (signedDigits 16 v ++ ['H']) v := by
  obtain ⟨s, digits, n, htext, hdigits, rfl⟩ :=
    exists_sign_signedDigits 16 (by decide) (by decide) v
  rw [htext]
  exact .hexadecimal s hdigits (Or.inl rfl)

/-- Numerals consist of ASCII characters. -/
theorem toNat_lt_of_read? {t : Text} {v : Int} (h : read? t = some v) :
    ∀ c ∈ t, c.toNat < 128 := by
  intro c hc
  have hchar := (isNumeralChar_of_read? h).2 c hc
  simp only [isNumeralChar, Bool.or_eq_true, decide_eq_true_eq, beq_iff_eq] at hchar
  rcases hchar with (((hdigit | rfl) | rfl) | rfl) | rfl
  · have hrange := toNat_of_digitValue_lt hdigit
    omega
  all_goals decide

/-! ### The reader and the grammar -/

/-- **Numerals are read exactly.**  A text is read as a number if and only if it
is a numeral for that number and the number is a signed 32-bit word; every other
text is not read at all.  In particular a numeral beyond these limits is not
read, however long it is, nor is a text with a character outside ASCII, a sign
alone or a mark without digits.  And every signed 32-bit number is read back
from its decimal text, and from its hexadecimal text with a mark, in letters of
either case. -/
theorem numerals_read_exactly (t : Text) :
    (∀ v, read? t = some v ↔ Denotes t v ∧ -2 ^ 31 ≤ v ∧ v ≤ 2 ^ 31 - 1) ∧
    (read? t = none ↔ ∀ v, Denotes t v → v < -2 ^ 31 ∨ 2 ^ 31 - 1 < v) ∧
    (∀ v, Denotes t v → v < -2 ^ 31 ∨ 2 ^ 31 - 1 < v → read? t = none) ∧
    ((∃ c ∈ t, 128 ≤ c.toNat) → read? t = none) ∧
    (∀ s : Sign, read? s.text = none ∧ read? (s.text ++ ['H']) = none ∧
      read? (s.text ++ ['h']) = none) ∧
    ∀ v : Int, -2 ^ 31 ≤ v → v ≤ 2 ^ 31 - 1 →
      read? (signedDecimal v) = some v ∧
      ∀ spelled, Text.sameLetters spelled (signedDigits 16 v ++ ['H']) = true →
        read? spelled = some v := by
  have hread : ∀ v, read? t = some v ↔ Denotes t v ∧ -2 ^ 31 ≤ v ∧ v ≤ 2 ^ 31 - 1 := by
    intro v
    rw [read?_eq_some_iff, fits_iff]
  refine ⟨hread, ?_, ?_, ?_, ?_, ?_⟩
  · rw [Option.eq_none_iff_forall_ne_some]
    constructor
    · intro hnone v hv
      have hout := mt (hread v).mpr (hnone v)
      by_contra hin
      exact hout ⟨hv, by omega, by omega⟩
    · intro hout v hv
      obtain ⟨hdenotes, hlow, hhigh⟩ := (hread v).mp hv
      have hv := hout v hdenotes
      omega
  · intro v hv hout
    cases hw : read? t with
    | none => rfl
    | some w =>
        obtain ⟨hdenotes, hlow, hhigh⟩ := (hread w).mp hw
        rw [hv.unique hdenotes] at hout
        omega
  · intro hother
    obtain ⟨c, hc, hcode⟩ := hother
    cases hv : read? t with
    | none => rfl
    | some v =>
        have hascii := toNat_lt_of_read? hv c hc
        omega
  · intro s
    cases s <;> decide
  · intro v hlow hhigh
    have hfits := fits_iff.mpr ⟨hlow, hhigh⟩
    refine ⟨read?_eq_some_iff.mpr ⟨denotes_signedDecimal v, hfits⟩, ?_⟩
    intro spelled hsame
    rw [← read?_asciiUpper, (Text.sameLetters_iff _ _).mp hsame, read?_asciiUpper]
    exact read?_eq_some_iff.mpr ⟨denotes_signedDigits_mark v, hfits⟩

/-- The lowest number is read in both bases, and the first one beyond the highest is not. -/
theorem numerals_read_exactly_limits :
    read? "-2147483648".toList = some (-2147483648) ∧
      read? "-80000000h".toList = some (-2147483648) ∧ read? "2147483648".toList = none := by
  obtain ⟨hdecimal, hspelled⟩ :=
    (numerals_read_exactly []).2.2.2.2.2 (-2147483648) (by decide) (by decide)
  refine ⟨hdecimal, hspelled _ (by decide), ?_⟩
  exact (numerals_read_exactly _).2.2.1 2147483648 (denotes_signedDecimal 2147483648) (by decide)

end SegmentAssembler.Numeral
