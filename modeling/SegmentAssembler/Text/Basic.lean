/-!
# Text as a sequence of characters

Everything the assembler reads or prints is a `Text`: the list of its
characters.  Source words, names, rows of the listing and messages are all
treated the same way, so that every text rule of the assembler is a function
on lists.

This file holds the rules that do not depend on any table of characters:

* `asciiUpper` and `sameLetters` — comparison that ignores the case of the
  letters `a`–`z` and of nothing else;
* `padRight`, `padLeft`, `center` — filling up to a width counted in
  characters; a text that is already wide enough is left alone;
* `utf8` — the bytes a text is stored as.
-/

namespace SegmentAssembler

/-- A text, as the list of its characters. -/
abbrev Text := List Char

namespace Text

/-- Capitalise the letters `a`–`z`; every other character stays. -/
def asciiUpper (t : Text) : Text := t.map Char.toUpper

/-- Two texts agree up to the case of ASCII letters. -/
def sameLetters (s t : Text) : Bool := asciiUpper s == asciiUpper t

/-- Fill with blanks on the right up to `width` characters. -/
def padRight (width : Nat) (t : Text) : Text :=
  t ++ List.replicate (width - t.length) ' '

/-- Fill with blanks on the left up to `width` characters. -/
def padLeft (width : Nat) (t : Text) : Text :=
  List.replicate (width - t.length) ' ' ++ t

/-- Fill with blanks on both sides up to `width` characters; an odd blank goes
to the right. -/
def center (width : Nat) (t : Text) : Text :=
  let gap := width - t.length
  List.replicate (gap / 2) ' ' ++ t ++ List.replicate (gap - gap / 2) ' '

/-- The bytes of a text in UTF-8. -/
def utf8 (t : Text) : List UInt8 := t.flatMap String.utf8EncodeChar

@[simp] theorem asciiUpper_nil : asciiUpper [] = [] := rfl

@[simp] theorem asciiUpper_cons (c : Char) (t : Text) :
    asciiUpper (c :: t) = c.toUpper :: asciiUpper t := rfl

/-- Capitals are as many as the letters. -/
@[simp] theorem length_asciiUpper (t : Text) : (asciiUpper t).length = t.length := by
  simp [asciiUpper]

/-- Texts agree up to case exactly if their capitals are the same. -/
theorem sameLetters_iff (s t : Text) :
    sameLetters s t = true ↔ asciiUpper s = asciiUpper t := by
  simp [sameLetters]

/-- Padding reaches the width, and never cuts. -/
@[simp] theorem length_padRight (width : Nat) (t : Text) :
    (padRight width t).length = max width t.length := by
  simp [padRight]; omega

@[simp] theorem length_padLeft (width : Nat) (t : Text) :
    (padLeft width t).length = max width t.length := by
  simp [padLeft]; omega

end Text

end SegmentAssembler
