import Mathlib
import SegmentAssembler.Mnemonic
import SegmentAssembler.Operand
import SegmentAssembler.Text.Capital

/-!
# The letters of names

Names of the program are ASCII: `isName` lets nothing else through.  The table
files a name under its full capital form, the end of a segment compares names
letter by letter in ASCII, and on names the two come to the same:

* `upper_of_isName` — the capital form of a name changes its letters one by one;
* `sameLetters_upper_iff` — a word agrees with the capital form of a name if it
  agrees with the name;
* `isName_asciiUpper`, `isKeyword_asciiUpper` — the case of letters decides
  neither what a name is nor what a keyword is;
* `isCapitalName_upper` — the capital form of a name is a name in capitals.
-/

namespace SegmentAssembler

/-! ### Characters of names -/

theorem isNamePart_of_isNameStart {c : Char} (h : isNameStart c = true) : isNamePart c = true := by
  simp only [isNameStart, isNamePart, Char.isAlphanum, Bool.or_eq_true] at *
  tauto

/-- A hyphen, an underscore, a digit or a letter. -/
theorem toNat_of_isNamePart {c : Char} (h : isNamePart c = true) :
    c.toNat = 45 ∨ c.toNat = 95 ∨ (48 ≤ c.toNat ∧ c.toNat ≤ 57) ∨
      (65 ≤ c.toNat ∧ c.toNat ≤ 90) ∨ (97 ≤ c.toNat ∧ c.toNat ≤ 122) := by
  simp only [isNamePart, Bool.or_eq_true, beq_iff_eq] at h
  rcases h with (h | rfl) | rfl
  · simp only [Char.isAlphanum, Char.isAlpha, Char.isUpper, Char.isLower, Char.isDigit,
      Bool.or_eq_true, Bool.and_eq_true, decide_eq_true_eq, UInt32.le_iff_toNat_le, ge_iff_le] at h
    have hcode : c.toNat = c.val.toNat := rfl
    have hcapitals : 'A'.val.toNat = 65 ∧ 'Z'.val.toNat = 90 := ⟨rfl, rfl⟩
    have hsmalls : 'a'.val.toNat = 97 ∧ 'z'.val.toNat = 122 := ⟨rfl, rfl⟩
    have hdigits : '0'.val.toNat = 48 ∧ '9'.val.toNat = 57 := ⟨rfl, rfl⟩
    omega
  · exact Or.inr (Or.inl rfl)
  · exact Or.inl rfl

/-- Names are ASCII. -/
theorem toNat_lt_of_isNamePart {c : Char} (h : isNamePart c = true) : c.toNat < 128 := by
  have hrange := toNat_of_isNamePart h
  omega

/-- Every letter of a name may stand in a name. -/
theorem isNamePart_of_mem {id : Text} (h : isName id = true) : ∀ c ∈ id, isNamePart c = true := by
  cases id with
  | nil => exact nomatch h
  | cons first rest =>
      simp only [isName, Bool.and_eq_true, List.all_eq_true] at h
      intro c hc
      rcases List.mem_cons.mp hc with rfl | hc
      · exact isNamePart_of_isNameStart h.1
      · exact h.2 c hc

/-! ### Capital forms of names -/

namespace Text

/-- Capitals have no further capitals. -/
@[simp] theorem asciiUpper_asciiUpper (t : Text) : asciiUpper (asciiUpper t) = asciiUpper t := by
  simp [asciiUpper, Function.comp_def]

/-- **The capital form of a name** changes its letters one by one. -/
theorem upper_of_isName {id : Text} (h : isName id = true) : upper id = asciiUpper id :=
  upper_of_ascii fun c hc => toNat_lt_of_isNamePart (isNamePart_of_mem h c hc)

/-- A word agrees with the capital form of a name if it agrees with the name. -/
theorem sameLetters_upper_iff {word id : Text} (h : isName id = true) :
    sameLetters word (upper id) = true ↔ sameLetters word id = true := by
  rw [sameLetters_iff, sameLetters_iff, upper_of_isName h, asciiUpper_asciiUpper]

end Text

theorem toUpper_of_not_isAlpha {c : Char} (h : c.isAlpha = false) : c.toUpper = c := by
  apply Char.toUpper_eq_of_not_isLower
  simp only [Char.isAlpha, Bool.or_eq_false_iff] at h
  simp [h.2]

theorem isNameStart_toUpper (c : Char) : isNameStart c.toUpper = isNameStart c := by
  cases halpha : c.isAlpha with
  | true => simp [isNameStart, halpha]
  | false => rw [toUpper_of_not_isAlpha halpha]

theorem isNamePart_toUpper (c : Char) : isNamePart c.toUpper = isNamePart c := by
  cases halpha : c.isAlpha with
  | true => simp [isNamePart, Char.isAlphanum, halpha]
  | false => rw [toUpper_of_not_isAlpha halpha]

/-- Whether a word is a name does not depend on the case of its letters. -/
theorem isName_asciiUpper (t : Text) : isName (Text.asciiUpper t) = isName t := by
  cases t with
  | nil => rfl
  | cons first rest =>
      simp [isName, isNameStart_toUpper, Text.asciiUpper, Function.comp_def, isNamePart_toUpper]

/-- Nor does it matter to whether a word is a keyword. -/
theorem isKeyword_asciiUpper (t : Text) : isKeyword (Text.asciiUpper t) = isKeyword t := by
  simp [isKeyword, Directive.ofName?, Mnemonic.ofName?]

/-- A capital letter or underscore, followed by capital letters, digits,
underscores and hyphens. -/
def isCapitalName : Text → Bool
  | [] => false
  | c :: rest =>
    (c.isUpper || c == '_') &&
      rest.all fun c => c.isUpper || c.isDigit || c == '_' || c == '-'

/-- **The capital form of a name is a name in capitals.** -/
theorem isCapitalName_upper {id : Text} (h : isName id = true) :
    isCapitalName (Text.upper id) = true := by
  rw [Text.upper_of_isName h]
  cases id with
  | nil => exact nomatch h
  | cons first rest =>
      simp only [isName, Bool.and_eq_true, List.all_eq_true] at h
      simp only [Text.asciiUpper_cons, isCapitalName, Bool.and_eq_true, List.all_eq_true]
      constructor
      · have hstart := h.1
        simp only [isNameStart] at hstart
        cases halpha : first.isAlpha with
        | true => simp [halpha]
        | false =>
            simp only [halpha, Bool.false_or] at hstart
            rw [toUpper_of_not_isAlpha halpha, hstart, Bool.or_true]
      · intro c hc
        obtain ⟨d, hd, rfl⟩ := List.mem_map.mp hc
        have hpart := h.2 d hd
        simp only [isNamePart, Char.isAlphanum] at hpart
        cases halpha : d.isAlpha with
        | true => simp [halpha]
        | false =>
            simp only [halpha, Bool.false_or] at hpart
            rw [toUpper_of_not_isAlpha halpha]
            simp only [Bool.or_eq_true] at hpart ⊢
            tauto

end SegmentAssembler
