import SegmentAssembler.Text.Blank

/-!
# Source lines and their words

A source text is cut at line feeds into numbered lines, and each line loses
the blanks at its ends.  Within a line, a *word* is a maximal run of
characters other than

    space   tab   carriage return   line feed   form feed   ,   ;

and a semicolon starts a comment that runs up to the next line feed.  Commas
separate words just as blanks do.

`words` reads the text once, from left to right, with a head that stands in a
gap, inside a word, or inside a comment.  A line that has a word is a *code
line*; the program is what stands on the code lines before the first `END`.
-/

namespace SegmentAssembler

/-! ### Words -/

/-- The characters between words: the blanks of the source language and commas. -/
def isSeparator (c : Char) : Bool :=
  c == ' ' || c == '\t' || c == '\r' || c == '\n' || c == '\x0c' || c == ','

/-- Where the reading head stands.  A word carries the characters read so far,
the last one first. -/
inductive Head where
  | gap
  | word (read : Text)
  | comment
deriving DecidableEq, Repr

/-- The reader of words: those already complete, the last one first, and the head. -/
structure Reader where
  complete : List Text := []
  head : Head := .gap
deriving DecidableEq, Repr

namespace Reader

/-- Complete the word under the head, if there is one. -/
def finished (r : Reader) : List Text :=
  match r.head with
  | .word read => read.reverse :: r.complete
  | _ => r.complete

/-- Read one character. -/
def feed (r : Reader) (c : Char) : Reader :=
  match r.head with
  | .comment => if c = '\n' then { r with head := .gap } else r
  | .gap =>
    if c = ';' then { r with head := .comment }
    else if isSeparator c then r
    else { r with head := .word [c] }
  | .word read =>
    if c = ';' then { complete := r.finished, head := .comment }
    else if isSeparator c then { complete := r.finished, head := .gap }
    else { r with head := .word (c :: read) }

/-- The words in reading order. -/
def words (r : Reader) : List Text := r.finished.reverse

end Reader

/-- The words of a text, comments removed. -/
def words (t : Text) : List Text := (t.foldl Reader.feed {}).words

/-! ### Lines -/

/-- A line of the source: its number, counted from one, and its trimmed text. -/
structure Line where
  number : Nat
  text : Text
deriving DecidableEq, Repr

/-- Cut a source text into its lines.  A final line feed is followed by one
more, empty line. -/
def splitLines (source : Text) : List Line :=
  ((source.splitOn '\n').zipIdx 1).map fun (text, number) => ⟨number, Text.trim text⟩

/-- A line with at least one word. -/
structure CodeLine where
  number : Nat
  head : Text
  rest : List Text
deriving DecidableEq, Repr

/-- The words of a line, if it has any. -/
def Line.code? (line : Line) : Option CodeLine :=
  match words line.text with
  | [] => none
  | head :: rest => some ⟨line.number, head, rest⟩

/-- The line that ends the program. -/
def CodeLine.isEnd (line : CodeLine) : Bool := Text.sameLetters line.head "END".toList

/-- The code lines of a source. -/
def codeLines (lines : List Line) : List CodeLine := lines.filterMap Line.code?

/-- The code lines before the end of the program. -/
def programLines (lines : List Line) : List CodeLine :=
  (codeLines lines).takeWhile fun line => !line.isEnd

/-- The number of the line that ends the program, if one does. -/
def endLine (lines : List Line) : Option Nat :=
  ((codeLines lines).find? CodeLine.isEnd).map CodeLine.number

end SegmentAssembler
