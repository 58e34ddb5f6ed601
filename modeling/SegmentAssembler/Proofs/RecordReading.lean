import SegmentAssembler.Proofs.AddressAccounting
import SegmentAssembler.Proofs.NameLetters

/-!
# The object record can be read back

A record has two parts of unknown length, its name and its code, and both may
hold the bytes that mark its sections.  The name ends at the first zero byte,
so it is read from the front; the code ends three bytes before the end, so it
is read from the back:

    48  name …  00  length  54  start  body …  45  entry
    ───────────────────────────────→           ←───────

`ObjectRecord.read?` is such a reader.  Each of its steps takes one piece off
one end and says exactly when it does so:

* `takeMark?_eq_some_iff`, `takeWord?_eq_some_iff` — marks and words;
* `takeName?_eq_some_iff` — a name without the character NUL, since no other
  character has a zero byte in UTF-8 (`zero_mem_utf8_iff`);
* `dropEnd?_eq_some_iff` — the last section;
* `read?_eq_some_iff` — the reader accepts what the writer writes and nothing
  else;
* `isSegmentName_ofSource` — and the assembler writes plain names only;
* `records_read_back` — the whole.
-/

namespace SegmentAssembler

/-! ### Names as bytes -/

namespace Text

/-- The text that is stored as these bytes. -/
def ofUtf8? (bytes : List UInt8) : Option Text := bytes.toByteArray.utf8Decode?.map Array.toList

/-- Bytes are read as the text that is stored as them. -/
theorem ofUtf8?_eq_some_iff {bytes : List UInt8} {t : Text} :
    ofUtf8? bytes = some t ↔ utf8 t = bytes := by
  constructor
  · intro h
    obtain ⟨chars, hchars, rfl⟩ := Option.map_eq_some_iff.mp h
    have hsome : bytes.toByteArray.utf8Decode?.isSome = true := by
      rw [hchars]
      rfl
    have hencode := ByteArray.utf8Encode_get_utf8Decode? (h := hsome)
    rw [Option.get_of_eq_some hsome hchars] at hencode
    exact List.toByteArray_inj.mp hencode
  · rintro rfl
    have hdecode : (utf8 t).toByteArray.utf8Decode? = some t.toArray := List.utf8Decode?_utf8Encode
    rw [ofUtf8?, hdecode]
    rfl

/-- A zero byte is the character NUL. -/
theorem zero_mem_utf8EncodeChar_iff {c : Char} :
    0 ∈ String.utf8EncodeChar c ↔ c = '\x00' := by
  constructor
  · intro h
    have hzero : c.val.toNat = 0 := by
      simp only [String.utf8EncodeChar] at h
      -- of the four forms, only the first can have a byte below 128
      split_ifs at h <;>
        simp only [List.mem_cons, List.not_mem_nil, or_false, ← UInt8.toNat_inj,
          UInt8.toNat_ofNat', UInt8.toNat_zero] at h <;>
        omega
    exact Char.ext (UInt32.toNat_inj.mp hzero)
  · rintro rfl
    decide

/-- A zero byte comes from a zero character and from nothing else. -/
theorem zero_mem_utf8_iff {t : Text} : 0 ∈ utf8 t ↔ '\x00' ∈ t := by
  simp only [utf8, List.mem_flatMap, zero_mem_utf8EncodeChar_iff, exists_eq_right]

/-- ASCII characters take one byte each. -/
theorem length_utf8_of_ascii {t : Text} (h : ∀ c ∈ t, c.toNat < 128) :
    (utf8 t).length = t.length := by
  induction t with
  | nil => rfl
  | cons c rest ih =>
      obtain ⟨hc, hrest⟩ := List.forall_mem_cons.mp h
      have hone : String.utf8EncodeChar c = [UInt8.ofNat c.val.toNat] :=
        if_pos (Nat.le_of_lt_succ hc)
      have htail := ih hrest
      simp only [utf8, List.flatMap_cons, List.length_append, hone, List.length_cons,
        List.length_nil] at htail ⊢
      omega

end Text

/-! ### The reader -/

/-- The word of two bytes, the low one first. -/
def wordOf (low high : UInt8) : UInt16 := UInt16.ofNat (low.toNat + 256 * high.toNat)

/-- Two bytes are the bytes of the word that they make. -/
theorem wordBytes_wordOf (low high : UInt8) : wordBytes (wordOf low high).toNat = [low, high] := by
  have hlow := low.toNat_lt
  have hhigh := high.toNat_lt
  have hword : (wordOf low high).toNat = low.toNat + 256 * high.toNat :=
    UInt16.toNat_ofNat_of_lt' (show low.toNat + 256 * high.toNat < 65536 by omega)
  rw [hword, wordBytes_toNat]

/-- The bytes of a word make it again. -/
theorem wordOf_toNat (w : UInt16) :
    wordOf (UInt8.ofNat w.toNat) (UInt8.ofNat (w.toNat / 256)) = w := by
  have hw := w.toNat_lt
  apply UInt16.toNat_inj.mp
  rw [wordOf, UInt16.toNat_ofNat', UInt8.toNat_ofNat', UInt8.toNat_ofNat']
  omega

namespace ObjectRecord

/-- Take a given byte off the front. -/
def takeMark? (mark : UInt8) : List UInt8 → Option (List UInt8)
  | [] => none
  | b :: rest => if b = mark then some rest else none

/-- Take a word off the front. -/
def takeWord? : List UInt8 → Option (UInt16 × List UInt8)
  | low :: high :: rest => some (wordOf low high, rest)
  | _ => none

/-- Take a name off the front, with the zero byte that ends it. -/
def takeName? (bytes : List UInt8) : Option (Text × List UInt8) :=
  match bytes.dropWhile (· != 0) with
  | [] => none
  | _ :: rest => (Text.ofUtf8? (bytes.takeWhile (· != 0))).map fun name => (name, rest)

/-- Take the last section off the back. -/
def dropEnd? (bytes : List UInt8) : Option (List UInt8 × UInt16) :=
  match bytes.reverse with
  | high :: low :: mark :: rest =>
    if mark = endMark then some (rest.reverse, wordOf low high) else none
  | _ => none

/-- Read a record. -/
def read? (bytes : List UInt8) : Option ObjectRecord := do
  let named ← takeMark? headerMark bytes
  let (name, sized) ← takeName? named
  let (length, text) ← takeWord? sized
  let placed ← takeMark? textMark text
  let (start, tail) ← takeWord? placed
  let (body, entry) ← dropEnd? tail
  some ⟨name, length, start, body, entry⟩

section Pieces

variable {bytes rest : List UInt8}

/-- A mark is taken off exactly where it stands in front. -/
theorem takeMark?_eq_some_iff {mark : UInt8} :
    takeMark? mark bytes = some rest ↔ bytes = mark :: rest := by
  cases bytes with
  | nil => simp [takeMark?]
  | cons b more => simp [takeMark?]

/-- A word is taken off exactly where its two bytes stand in front. -/
theorem takeWord?_eq_some_iff {w : UInt16} :
    takeWord? bytes = some (w, rest) ↔ bytes = wordBytes w.toNat ++ rest := by
  constructor
  · intro h
    unfold takeWord? at h
    split at h
    · cases h
      rw [wordBytes_wordOf]
      rfl
    · cases h
  · rintro rfl
    simp only [wordBytes, List.cons_append, List.nil_append, takeWord?, wordOf_toNat]

/-- **A name ends at the first zero byte**, and none of its characters has one. -/
theorem takeName?_eq_some_iff {name : Text} :
    takeName? bytes = some (name, rest) ↔
      '\x00' ∉ name ∧ bytes = Text.utf8 name ++ 0 :: rest := by
  constructor
  · intro h
    unfold takeName? at h
    split at h
    · cases h
    · rename_i zero more hdrop
      obtain ⟨t, ht, hpair⟩ := Option.map_eq_some_iff.mp h
      obtain ⟨rfl, rfl⟩ := Prod.mk.inj hpair
      rw [Text.ofUtf8?_eq_some_iff] at ht
      have hzero : zero = 0 := by
        have hhead := List.head?_dropWhile_not (· != 0) bytes
        rw [hdrop] at hhead
        simpa using hhead
      constructor
      · intro hnul
        have hmem := Text.zero_mem_utf8_iff.mpr hnul
        rw [ht] at hmem
        have hne := List.all_eq_true.mp List.all_takeWhile 0 hmem
        simp at hne
      · rw [hzero] at hdrop
        rw [ht, ← hdrop, List.takeWhile_append_dropWhile]
  · rintro ⟨hnul, rfl⟩
    have hne : ∀ b ∈ Text.utf8 name, (b != 0) = true := by
      intro b hb
      rw [bne_iff_ne]
      rintro rfl
      exact hnul (Text.zero_mem_utf8_iff.mp hb)
    have htake : (Text.utf8 name ++ 0 :: rest).takeWhile (· != 0) = Text.utf8 name := by
      rw [List.takeWhile_append_of_pos hne]
      simp
    have hdrop : (Text.utf8 name ++ 0 :: rest).dropWhile (· != 0) = 0 :: rest := by
      rw [List.dropWhile_append_of_pos hne]
      simp
    rw [takeName?, hdrop, htake, Text.ofUtf8?_eq_some_iff.mpr rfl]
    rfl

/-- The end of a record is a mark and the word of the entry. -/
theorem dropEnd?_eq_some_iff {body : List UInt8} {entry : UInt16} :
    dropEnd? bytes = some (body, entry) ↔ bytes = body ++ endMark :: wordBytes entry.toNat := by
  constructor
  · intro h
    unfold dropEnd? at h
    split at h
    · rename_i high low mark front hreverse
      split at h
      · rename_i hmark
        cases h
        rw [wordBytes_wordOf, ← hmark, ← List.reverse_reverse bytes, hreverse]
        simp
      · cases h
    · cases h
  · rintro rfl
    have hword := wordOf_toNat entry
    simp only [dropEnd?, wordBytes, List.reverse_append, List.reverse_cons, List.reverse_nil,
      List.nil_append, List.cons_append, List.reverse_reverse, hword, if_true]

end Pieces

/-- **The reader accepts what the writer writes and nothing else.** -/
theorem read?_eq_some_iff {bytes : List UInt8} {r : ObjectRecord} :
    read? bytes = some r ↔ '\x00' ∉ r.segmentName ∧ r.toBytes = bytes := by
  simp only [read?, Option.bind_eq_bind, Option.bind_eq_some_iff, Prod.exists,
    takeMark?_eq_some_iff, takeName?_eq_some_iff, takeWord?_eq_some_iff, dropEnd?_eq_some_iff]
  constructor
  · rintro ⟨-, rfl, name, -, ⟨hname, rfl⟩, length, -, rfl, -, rfl, start, -, rfl, body, entry, rfl,
      hrecord⟩
    cases hrecord
    refine ⟨hname, ?_⟩
    simp [toBytes]
  · rintro ⟨hname, rfl⟩
    refine ⟨_, ?_, r.segmentName, _, ⟨hname, rfl⟩, r.segmentLength, _, rfl, _, rfl,
      r.startAddress, _, rfl, r.body, r.entryPoint, rfl, rfl⟩
    simp [toBytes]

/-- A record has ten bytes beside its name and its code. -/
theorem length_toBytes (r : ObjectRecord) :
    r.toBytes.length = (Text.utf8 r.segmentName).length + r.body.length + 10 := by
  simp only [toBytes, List.cons_append, List.length_cons, List.length_append, length_wordBytes]
  omega

end ObjectRecord

/-! ### The records of programs -/

/-- The names that a segment can have: the default one, or a name in capitals
that is no keyword. -/
def IsSegmentName (t : Text) : Prop :=
  t = defaultSegmentName ∨ isCapitalName t = true ∧ isKeyword t = false

/-- A name in capitals is a name. -/
theorem isName_of_isCapitalName {t : Text} (h : isCapitalName t = true) : isName t = true := by
  cases t with
  | nil => cases h
  | cons first rest =>
      simp only [isCapitalName, isName, isNameStart, isNamePart, Char.isAlphanum, Char.isAlpha,
        Bool.and_eq_true, Bool.or_eq_true, List.all_eq_true] at h ⊢
      refine ⟨h.1.imp_left Or.inl, fun c hc => ?_⟩
      have hpart := h.2 c hc
      tauto

/-- The name of a segment is a name. -/
theorem IsSegmentName.isName {t : Text} (h : IsSegmentName t) : isName t = true := by
  rcases h with rfl | ⟨hcapital, -⟩
  · decide
  · exact isName_of_isCapitalName hcapital

/-- A name does not hold the character NUL. -/
theorem nul_not_mem_of_isName {t : Text} (h : isName t = true) : '\x00' ∉ t := by
  intro hmem
  exact absurd (isNamePart_of_mem h _ hmem) (by decide)

namespace State

variable {s : State}

/-- A line leaves the segment with a name that it may have. -/
theorem Admits.isSegmentName {line : CodeLine} {e : Effect} (h : s.Admits line e)
    (hs : IsSegmentName s.segmentName) : IsSegmentName (s.apply e).segmentName := by
  cases h with
  | opened hphase hname =>
      rcases hname with rfl | ⟨hname, hkeyword, rfl⟩
      · exact hs
      · have hupper : isKeyword (Text.upper line.head) = false := by
          rw [Text.upper_of_isName hname, isKeyword_asciiUpper]
          exact hkeyword
        exact Or.inr ⟨isCapitalName_upper hname, hupper⟩
  | _ => exact hs

/-- A run leaves the segment with a name that it may have. -/
theorem isSegmentName_finish_run (hs : IsSegmentName s.segmentName) (lines : List CodeLine) :
    IsSegmentName (s.finish (s.run lines)).segmentName := by
  induction lines generalizing s with
  | nil => exact hs
  | cons line rest ih =>
      rw [run_cons, finish_cons]
      exact ih ((judge_admits s line).isSegmentName hs)

end State

namespace Layout

/-- **Segments have plain names**, with or without errors. -/
theorem isSegmentName_ofSource (source : Text) : IsSegmentName (ofSource source).segmentName :=
  State.isSegmentName_finish_run (s := {}) (Or.inl rfl) _

/-- First addresses fit a word. -/
theorem firstAddress_le_top (source : Text) (p : Effect → Bool) :
    (ofSource source).firstAddress p ≤ topAddress := by
  unfold firstAddress
  split
  · rename_i r hfind
    exact counter_le_top_of_mem_records (List.mem_of_find?_eq_some hfind)
  · exact Nat.zero_le _

/-- An address is stored in a word without loss. -/
theorem toNat_firstAddress (source : Text) (p : Effect → Bool) :
    (UInt16.ofNat ((ofSource source).firstAddress p)).toNat = (ofSource source).firstAddress p :=
  UInt16.toNat_ofNat_of_lt' (Nat.lt_of_le_of_lt (firstAddress_le_top source p) (by decide))

end Layout

/-- **Object records can be read back.**  There is a reader that accepts exactly
the bytes that are written for records whose name does not hold the character
NUL, and gives back the record.  A record takes ten bytes beside its name and
its code.  Whenever a program is assembled to an object record, the segment has
its default name or a name in capitals; so the bytes determine this name, the
length, the start, the code and the entry of the program. -/
theorem ObjectRecord.records_read_back :
    (∀ bytes r, read? bytes = some r ↔ '\x00' ∉ r.segmentName ∧ r.toBytes = bytes) ∧
    (∀ r : ObjectRecord,
      r.toBytes.length = (Text.utf8 r.segmentName).length + r.body.length + 10) ∧
    ∀ source assembly bytes, assemble? source = some assembly →
      assembly.objectBytes = some bytes →
      let l := Layout.ofSource source
      IsSegmentName l.segmentName ∧
      (∃ r, read? bytes = some r ∧ r.segmentName = l.segmentName ∧
        r.segmentLength.toNat = l.segmentLength ∧ r.startAddress.toNat = l.startAddress ∧
        r.body = l.image.body ∧ r.entryPoint.toNat = l.entryPoint) ∧
      bytes.length = l.segmentName.length + l.image.body.length + 10 := by
  refine ⟨fun bytes r => read?_eq_some_iff, length_toBytes, ?_⟩
  intro source assembly bytes hassembly hbytes l
  have hsegment : IsSegmentName l.segmentName := Layout.isSegmentName_ofSource source
  have hname := hsegment.isName
  have hwritten : l.objectRecord.toBytes = bytes := by
    rw [Layout.eq_ofLayout_of_assemble? hassembly, Assembly.ofLayout] at hbytes
    simp only at hbytes
    split at hbytes
    · cases hbytes
    · exact Option.some.inj hbytes
  refine ⟨hsegment, ⟨l.objectRecord, ?_, rfl, ?_, ?_, rfl, ?_⟩, ?_⟩
  · exact read?_eq_some_iff.mpr ⟨nul_not_mem_of_isName hname, hwritten⟩
  · exact Layout.toNat_segmentLength_objectRecord source
  · exact Layout.toNat_firstAddress source _
  · exact Layout.toNat_firstAddress source _
  · have hascii := Text.length_utf8_of_ascii fun c hc =>
      toNat_lt_of_isNamePart (isNamePart_of_mem hname c hc)
    rw [← hwritten, length_toBytes, ← hascii]
    rfl

/-- Data that looks like the marks of a record and the end of its name, in front
of an instruction: it is read as code. -/
theorem ObjectRecord.records_read_back_marks :
    let source := "s SEGMENT\nX DB 45h,0,48h,54h\nMUL AX\ns ENDS".toList
    ∃ assembly bytes, assemble? source = some assembly ∧ assembly.objectBytes = some bytes ∧
      bytes.length = 17 ∧
      ∃ r, read? bytes = some r ∧ r.segmentName = "S".toList ∧ r.segmentLength.toNat = 6 ∧
        r.startAddress.toNat = 0 ∧ r.body = [0x45, 0, 0x48, 0x54, 0xF7, 0xE0] ∧
        r.entryPoint.toNat = 4 := by
  intro source
  obtain ⟨-, hread, hlength⟩ :=
    records_read_back.2.2 source (.ofLayout (.ofSource source))
      (Layout.ofSource source).objectRecord.toBytes rfl rfl
  exact ⟨_, _, rfl, rfl, hlength, hread⟩

end SegmentAssembler
