import SegmentAssembler.Command.Session
import SegmentAssembler.Proofs.AddressAccounting
import SegmentAssembler.Proofs.Respelling
import SegmentAssembler.Proofs.StoredFiles

/-!
# What a session delivers

A session delivers at most two things, the listing and then the object file,
and it may end at any of five points on the way:

    read the source  →  assemble it  →  deliver the listing  →  store the object file
          │                 │                  │       │                  │
        unread            blank             refused  rejected          refused

The session is written for any host, so it also runs on a machine that keeps a
journal of its deeds (`Recorder`), over any storage of files.  On the tree of files
that is the plain machine apart from the journal (`agrees_session`), and the journal
tells apart what the files alone cannot: a file that was left alone and one that was
overwritten with the same contents.

* `Course` — the ways in which a session can go, each with its deeds;
* `goes_assembleFile` — every session goes in one of them;
* `Course.content_eq`, `Course.delivered`, `Course.listed`, `Course.eq_ok_iff`,
  `Course.former` — what they have in common;
* `object_file_guarded` — so the object file is touched only if the assembly
  succeeded.
-/

namespace SegmentAssembler

/-! ### Machines with a journal -/

/-- Something that was delivered. -/
inductive Deed where
  | printed (text : Text)
  | stored (path : Text) (contents : List UInt8)
deriving DecidableEq, Repr

/-- The files of a storage, what has been printed, the events so far, and all that
has been delivered. -/
structure Journal (S : Storage) where
  files : S.Files
  printed : Text := []
  events : List Event := []
  deeds : List Deed := []

namespace Journal

variable {S : Storage}

def print (j : Journal S) (text : Text) : Journal S :=
  { j with printed := j.printed ++ text, deeds := j.deeds ++ [.printed text] }

def store (j : Journal S) (files : S.Files) (path : Text) (contents : List UInt8) : Journal S :=
  { j with files, deeds := j.deeds ++ [.stored path contents] }

def log (j : Journal S) (events : List Event) : Journal S :=
  { j with events := j.events ++ events }

/-- The journal of the tree of files, without the deeds. -/
def world (j : Journal FileSystem.storage) : World where
  files := j.files
  printed := j.printed
  events := j.events

end Journal

/-- A host made of values that keeps a journal. -/
def Recorder (S : Storage) (α : Type) : Type := Journal S → α × Journal S

instance {S : Storage} : Monad (Recorder S) := inferInstanceAs (Monad (StateM (Journal S)))

instance {S : Storage} : Host (Recorder S) where
  read path := fun j => (S.read j.files path, j)
  write path contents := fun j =>
    match S.write j.files path contents with
    | .ok files => (.ok (), j.store files path contents)
    | .error fault => (.error fault, j)
  print text := fun j => ((), j.print text)
  log event := fun j => ((), j.log [event])

/-- A session on the files of a storage, with the journal of its deeds. -/
def Options.record (o : Options) (S : Storage) (files : S.Files) : UInt32 × Journal S :=
  (session o : Recorder S UInt32) { files }

/-! ### The journal changes nothing -/

/-- Two actions that give the same result and do the same to the world. -/
def Agrees {α : Type} (x : Machine α) (y : Recorder FileSystem.storage α) : Prop :=
  ∀ j, x j.world = ((y j).1, (y j).2.world)

section Agreement

variable {α β : Type}

theorem agrees_pure (a : α) : Agrees (pure a) (pure a) := fun _ => rfl

/-- Actions that agree step by step agree. -/
theorem Agrees.bind {x : Machine α} {y : Recorder FileSystem.storage α} {f : α → Machine β}
    {g : α → Recorder FileSystem.storage β} (hx : Agrees x y) (hf : ∀ a, Agrees (f a) (g a)) :
    Agrees (x >>= f) (y >>= g) := by
  intro j
  have hfirst : (x >>= f) j.world = f (x j.world).1 (x j.world).2 := rfl
  rw [hfirst, hx j]
  exact hf _ _

theorem agrees_read (path : Text) : Agrees (Host.read path) (Host.read path) := fun _ => rfl

/-- Both machines store the same files, or fail with the same fault. -/
theorem agrees_write (path : Text) (contents : List UInt8) :
    Agrees (Host.write path contents) (Host.write path contents) := by
  intro j
  simp only [Host.write, Journal.world]
  cases j.files.write path contents <;> rfl

theorem agrees_print (text : Text) : Agrees (Host.print text) (Host.print text) := fun _ => rfl

theorem agrees_log (event : Event) : Agrees (Host.log event) (Host.log event) := fun _ => rfl

/-- Events are logged one after the other. -/
theorem agrees_logAll (events : List Event) :
    Agrees (events.forM Host.log) (events.forM Host.log) := by
  induction events with
  | nil => exact agrees_pure ()
  | cons event rest ih => exact (agrees_log event).bind fun _ => ih

/-- The source is read, and then it is text or not. -/
theorem agrees_readSource (path : Text) : Agrees (readSource path) (readSource path) := by
  refine (agrees_read path).bind fun result => ?_
  cases result with
  | error fault => exact agrees_pure _
  | ok bytes => cases h : decodeText? bytes <;> simp only [h] <;> exact agrees_pure _

/-- A file is stored, or the fault becomes the failure. -/
theorem agrees_storeFile (path : Text) (contents : List UInt8) :
    Agrees (storeFile path contents) (storeFile path contents) := by
  refine (agrees_write path contents).bind fun result => ?_
  cases result <;> exact agrees_pure _

/-- The listing goes to its file or to the terminal. -/
theorem agrees_deliverListing (o : Options) (listing : Text) :
    Agrees (deliverListing o listing) (deliverListing o listing) := by
  unfold deliverListing
  cases o.listing with
  | some path => exact agrees_storeFile path _
  | none => exact (agrees_print _).bind fun _ => agrees_pure _

/-- The object file follows the listing, unless that failed or there are errors. -/
theorem agrees_deliver (o : Options) (c : Assembly) : Agrees (deliver o c) (deliver o c) := by
  refine (agrees_deliverListing o c.listing).bind fun listed => ?_
  cases listed with
  | error failure => exact agrees_pure _
  | ok _ =>
      cases c.objectBytes with
      | none => exact agrees_pure _
      | some bytes =>
          refine (agrees_storeFile o.output _).bind fun stored => ?_
          cases stored with
          | error failure => exact agrees_pure _
          | ok _ => exact (agrees_log _).bind fun _ => agrees_pure _

/-- The results are delivered, unless the source is unread or blank. -/
theorem agrees_assembleFile (o : Options) : Agrees (assembleFile o) (assembleFile o) := by
  refine (agrees_readSource o.input).bind fun read => ?_
  cases read with
  | error failure => exact agrees_pure _
  | ok source =>
      refine (agrees_log _).bind fun _ => ?_
      cases assemble? source with
      | none => exact agrees_pure _
      | some c => exact (agrees_logAll c.events).bind fun _ => agrees_deliver o c

/-- **Apart from the journal, the recording machine is the plain one.** -/
theorem agrees_session (o : Options) : Agrees (session o) (session o) := by
  refine (agrees_assembleFile o).bind fun outcome => ?_
  cases outcome with
  | ok _ => exact agrees_pure _
  | error failure => exact (agrees_log _).bind fun _ => agrees_pure _

/-- What a request does to the tree of files is what the journal of it says. -/
theorem runOn_eq_record (o : Options) (files : FileSystem) :
    (Request.assemble o).runOn files =
      ((o.record FileSystem.storage files).1, (o.record FileSystem.storage files).2.world) :=
  agrees_session o { files }

end Agreement

/-! ### The ways of a session -/

/-- Bytes are read as the text that is stored as them. -/
theorem decodeText?_eq_some_iff {bytes : List UInt8} {t : Text} :
    decodeText? bytes = some t ↔ Text.utf8 t = bytes := by
  have hbytes : (⟨bytes.toArray⟩ : ByteArray) = bytes.toByteArray := by
    apply ByteArray.ext
    simp
  unfold decodeText?
  rw [hbytes, Option.map_eq_some_iff]
  constructor
  · rintro ⟨s, hs, rfl⟩
    unfold String.fromUTF8? at hs
    split at hs
    · rename_i hvalid
      cases hs
      have hencode := String.utf8Encode_toList (b := String.fromUTF8 bytes.toByteArray hvalid)
      exact List.toByteArray_inj.mp hencode
    · cases hs
  · rintro rfl
    have hvalid : (Text.utf8 t).toByteArray.IsValidUTF8 := ⟨t, rfl⟩
    refine ⟨String.ofList t, ?_, String.toList_ofList⟩
    rw [String.fromUTF8?, dif_pos hvalid]
    rfl

/-- The listing is delivered, and these are the files then: it is printed, or
stored in its file. -/
inductive Listed (S : Storage) (o : Options) (files : S.Files) (listing : Text) : S.Files → Prop
  | printed (hlisting : o.listing = none) : Listed S o files listing files
  | stored {path : Text} {files' : S.Files} (hlisting : o.listing = some path)
      (hwrite : S.write files path (Text.utf8 listing) = .ok files') :
      Listed S o files listing files'

/-- The delivery of a listing: on the terminal a line feed follows it, in a file
nothing does. -/
def Options.listingDeed (o : Options) (listing : Text) : Deed :=
  match o.listing with
  | none => .printed (listing ++ ['\n'])
  | some path => .stored path (Text.utf8 listing)

/-- The text that a deed puts on the terminal. -/
def Deed.text : Deed → Text
  | printed text => text
  | stored _ _ => []

/-- **The ways in which a session can go**, each with its outcome, the files
afterwards and the deeds on the way. -/
inductive Course (S : Storage) (o : Options) (files : S.Files) :
    Except Failure Unit → S.Files → List Deed → Prop
  | unread {fault : Fault} (hread : S.read files o.input = .error fault) :
      Course S o files (.error (.fault fault)) files []
  | notText {bytes : List UInt8} (hread : S.read files o.input = .ok bytes)
      (hbytes : ∀ source, Text.utf8 source ≠ bytes) : Course S o files (.error .notText) files []
  | blank {source : Text} (hread : S.read files o.input = .ok (Text.utf8 source))
      (hblank : Text.isAllBlank source = true) :
      Course S o files (.error (.emptySource o.input)) files []
  | unlisted {source path : Text} {c : Assembly} {fault : Fault}
      (hread : S.read files o.input = .ok (Text.utf8 source))
      (hassembly : assemble? source = some c)
      (hlisting : o.listing = some path)
      (hwrite : S.write files path (Text.utf8 c.listing) = .error fault) :
      Course S o files (.error (.fault fault)) files []
  | rejected {source : Text} {c : Assembly} {files' : S.Files}
      (hread : S.read files o.input = .ok (Text.utf8 source))
      (hassembly : assemble? source = some c)
      (hlisted : Listed S o files c.listing files') (herrors : c.objectBytes = none) :
      Course S o files (.error (.rejected c.report.errorCount)) files' [o.listingDeed c.listing]
  | unwritten {source : Text} {c : Assembly} {files' : S.Files} {bytes : List UInt8}
      {fault : Fault} (hread : S.read files o.input = .ok (Text.utf8 source))
      (hassembly : assemble? source = some c) (hlisted : Listed S o files c.listing files')
      (hbytes : c.objectBytes = some bytes)
      (hwrite : S.write files' o.output (objectContents o bytes) = .error fault) :
      Course S o files (.error (.fault fault)) files' [o.listingDeed c.listing]
  | done {source : Text} {c : Assembly} {files' files'' : S.Files} {bytes : List UInt8}
      (hread : S.read files o.input = .ok (Text.utf8 source))
      (hassembly : assemble? source = some c)
      (hlisted : Listed S o files c.listing files') (hbytes : c.objectBytes = some bytes)
      (hwrite : S.write files' o.output (objectContents o bytes) = .ok files'') :
      Course S o files (.ok ()) files''
        [o.listingDeed c.listing, .stored o.output (objectContents o bytes)]

section Recording

variable {S : Storage} {α β : Type}

private theorem bind_apply (x : Recorder S α) (f : α → Recorder S β) (j : Journal S) :
    (x >>= f) j = f (x j).1 (x j).2 := rfl

/-- Logging events changes nothing but the log. -/
theorem logAll_apply (events : List Event) (j : Journal S) :
    (events.forM Host.log : Recorder S PUnit) j = (⟨⟩, j.log events) := by
  induction events generalizing j with
  | nil =>
      have hnone : ([].forM Host.log : Recorder S PUnit) j = (⟨⟩, j) := rfl
      rw [hnone, Journal.log, List.append_nil]
  | cons event rest ih =>
      have hfirst : ((event :: rest).forM Host.log : Recorder S PUnit) j =
          (rest.forM Host.log : Recorder S PUnit) (j.log [event]) := rfl
      rw [hfirst, ih]
      simp [Journal.log]

/-- A file that cannot be read is the failure of the session. -/
theorem readSource_of_error {j : Journal S} {path : Text} {fault : Fault}
    (h : S.read j.files path = .error fault) :
    (readSource path : Recorder S _) j = (.error (.fault fault), j) := by
  have hread : (Host.read path : Recorder S _) j = (.error fault, j) := by simp only [Host.read, h]
  rw [readSource, bind_apply, hread]
  rfl

/-- A file that can be read is a source if its bytes are text. -/
theorem readSource_of_ok {j : Journal S} {path : Text} {bytes : List UInt8}
    (h : S.read j.files path = .ok bytes) :
    (readSource path : Recorder S _) j =
      ((decodeText? bytes).elim (.error .notText) .ok, j) := by
  have hread : (Host.read path : Recorder S _) j = (.ok bytes, j) := by simp only [Host.read, h]
  rw [readSource, bind_apply, hread]
  cases hdecode : decodeText? bytes <;> simp only [hdecode] <;> rfl

/-- A file that is stored is entered in the journal. -/
theorem storeFile_of_ok {j : Journal S} {path : Text} {contents : List UInt8} {files : S.Files}
    (h : S.write j.files path contents = .ok files) :
    (storeFile path contents : Recorder S _) j = (.ok (), j.store files path contents) := by
  have hwrite : (Host.write path contents : Recorder S _) j =
      (.ok (), j.store files path contents) := by
    simp only [Host.write, h]
  rw [storeFile, bind_apply, hwrite]
  rfl

/-- A file that cannot be stored leaves the journal as it is. -/
theorem storeFile_of_error {j : Journal S} {path : Text} {contents : List UInt8} {fault : Fault}
    (h : S.write j.files path contents = .error fault) :
    (storeFile path contents : Recorder S _) j = (.error (.fault fault), j) := by
  have hwrite : (Host.write path contents : Recorder S _) j = (.error fault, j) := by
    simp only [Host.write, h]
  rw [storeFile, bind_apply, hwrite]
  rfl

/-- The journal after the delivery of a listing. -/
def Journal.listed (j : Journal S) (o : Options) (listing : Text) (files : S.Files) :
    Journal S where
  files := files
  printed := j.printed ++ (o.listingDeed listing).text
  events := j.events
  deeds := j.deeds ++ [o.listingDeed listing]

/-- A listing is delivered, or its file cannot be written. -/
theorem deliverListing_apply (o : Options) (listing : Text) (j : Journal S) :
    (∃ files, Listed S o j.files listing files ∧
      (deliverListing o listing : Recorder S _) j = (.ok (), j.listed o listing files)) ∨
    ∃ path fault, o.listing = some path ∧
      S.write j.files path (Text.utf8 listing) = .error fault ∧
      (deliverListing o listing : Recorder S _) j = (.error (.fault fault), j) := by
  cases hlisting : o.listing with
  | none =>
      left
      refine ⟨j.files, .printed hlisting, ?_⟩
      simp only [deliverListing, Journal.listed, Options.listingDeed, hlisting]
      rfl
  | some path =>
      cases hwrite : S.write j.files path (Text.utf8 listing) with
      | error fault =>
          refine Or.inr ⟨path, fault, rfl, hwrite, ?_⟩
          simp only [deliverListing, hlisting]
          exact storeFile_of_error hwrite
      | ok files =>
          refine Or.inl ⟨files, .stored hlisting hwrite, ?_⟩
          simp only [deliverListing, hlisting]
          rw [storeFile_of_ok hwrite]
          simp [Journal.listed, Journal.store, Options.listingDeed, hlisting, Deed.text]

/-- An action goes in one of the ways, and the journal tells in which. -/
def Goes (S : Storage) (o : Options) (files : S.Files)
    (result : Except Failure Unit × Journal S) : Prop :=
  Course S o files result.1 result.2.files result.2.deeds ∧
    result.2.printed = result.2.deeds.flatMap Deed.text

/-- What counts of a journal are its files, its deeds and the text that they print. -/
theorem Goes.of_course {o : Options} {files files' : S.Files} {outcome : Except Failure Unit}
    {deeds : List Deed} {j : Journal S} (h : Course S o files outcome files' deeds)
    (hfiles : j.files = files') (hdeeds : j.deeds = deeds)
    (hprinted : j.printed = deeds.flatMap Deed.text) : Goes S o files (outcome, j) := by
  subst hfiles hdeeds
  exact ⟨h, hprinted⟩

/-- From the assembly on there are four ways left, by the listing, the errors and the
object file. -/
theorem goes_deliver {o : Options} {j : Journal S} {source : Text} {c : Assembly}
    (hread : S.read j.files o.input = .ok (Text.utf8 source))
    (hassembly : assemble? source = some c) (hprinted : j.printed = [])
    (hdeeds : j.deeds = []) : Goes S o j.files ((deliver o c : Recorder S _) j) := by
  rw [deliver, bind_apply]
  rcases deliverListing_apply o c.listing j with
    ⟨files, hlisted, heq⟩ | ⟨path, fault, hpath, hwrite, heq⟩
  · rw [heq]
    have hbegun : (j.listed o c.listing files).deeds = [o.listingDeed c.listing] := by
      simp [Journal.listed, hdeeds]
    have hshown : (j.listed o c.listing files).printed =
        [o.listingDeed c.listing].flatMap Deed.text := by
      simp [Journal.listed, hprinted]
    cases hbytes : c.objectBytes with
    | none => exact .of_course (.rejected hread hassembly hlisted hbytes) rfl hbegun hshown
    | some bytes =>
        simp only [bind_apply]
        cases hwrite : S.write files o.output (objectContents o bytes) with
        | error fault =>
            rw [storeFile_of_error (j := j.listed o c.listing files) hwrite]
            exact .of_course (.unwritten hread hassembly hlisted hbytes hwrite) rfl hbegun hshown
        | ok files' =>
            rw [storeFile_of_ok (j := j.listed o c.listing files) hwrite]
            refine .of_course (.done hread hassembly hlisted hbytes hwrite) rfl ?_ ?_
            · simp [Journal.log, Journal.store, hbegun]
            · simp [Journal.log, Journal.store, hshown, Deed.text]
  · rw [heq]
    exact .of_course (.unlisted hread hassembly hpath hwrite) rfl hdeeds hprinted

/-- **Every session goes in one of the ways.** -/
theorem goes_assembleFile (o : Options) (files : S.Files) :
    Goes S o files ((assembleFile o : Recorder S _) { files }) := by
  rw [assembleFile, bind_apply]
  cases hread : S.read files o.input with
  | error fault =>
      rw [readSource_of_error hread]
      exact .of_course (.unread hread) rfl rfl rfl
  | ok bytes =>
      rw [readSource_of_ok hread]
      cases hdecode : decodeText? bytes with
      | none =>
          refine .of_course (.notText hread fun source hsource => ?_) rfl rfl rfl
          rw [decodeText?_eq_some_iff.mpr hsource] at hdecode
          cases hdecode
      | some source =>
          rw [← decodeText?_eq_some_iff.mp hdecode] at hread
          simp only [Option.elim_some, bind_apply]
          cases hblank : Text.isAllBlank source with
          | true =>
              have hnone : assemble? source = none := by simp [assemble?, hblank]
              rw [hnone]
              exact .of_course (.blank hread hblank) rfl rfl rfl
          | false =>
              have hassembly := assemble?_of_not_blank hblank
              let begun : Journal S := { files, events := [.assembling o.input] }
              rw [hassembly]
              simp only [bind_apply, logAll_apply]
              exact goes_deliver (j := begun.log _) hread hassembly rfl rfl

/-- The exit code tells whether all went well. -/
theorem exists_course_record (o : Options) (files : S.Files) :
    ∃ outcome, Goes S o files (outcome, (o.record S files).2) ∧
      (o.record S files).1 = outcome.casesOn (fun _ => 1) (fun _ => 0) := by
  have hgoes := goes_assembleFile o files
  rw [Options.record, session, bind_apply]
  revert hgoes
  cases (assembleFile o : Recorder S _) { files } with
  | mk outcome j =>
      intro hgoes
      refine ⟨outcome, ?_⟩
      cases outcome with
      | error failure => exact ⟨.of_course hgoes.1 rfl rfl hgoes.2, rfl⟩
      | ok _ => exact ⟨hgoes, rfl⟩

end Recording

/-! ### What the ways have in common -/

/-- What the object file is to hold: the bytes of the object record, or its
binary digits. -/
def Assembly.objectFile? (c : Assembly) (o : Options) : Option (List UInt8) :=
  if o.binary then c.objectBytes else c.objectText.map Text.utf8

/-- What a session stores is what the object file is to hold. -/
theorem objectFile?_of_objectBytes {o : Options} {c : Assembly} {bytes : List UInt8}
    (h : c.objectBytes = some bytes) : c.objectFile? o = some (objectContents o bytes) := by
  unfold Assembly.objectFile? objectContents Assembly.objectText
  rw [h]
  cases o.binary <;> rfl

/-- There is no object code exactly if there are errors. -/
theorem objectBytes_eq_none_iff {source : Text} {c : Assembly} (h : assemble? source = some c) :
    c.objectBytes = none ↔ c.report.hasErrors = true := by
  rw [Layout.eq_ofLayout_of_assemble? h]
  simp [Assembly.ofLayout]

theorem hasErrors_of_objectBytes {source : Text} {c : Assembly} {bytes : List UInt8}
    (h : assemble? source = some c) (hbytes : c.objectBytes = some bytes) :
    c.report.hasErrors = false := by
  rw [← Bool.not_eq_true, ← objectBytes_eq_none_iff h, hbytes]
  simp

theorem isAllBlank_of_assemble? {source : Text} {c : Assembly} (h : assemble? source = some c) :
    Text.isAllBlank source = false := by
  cases hblank : Text.isAllBlank source with
  | true => simp [assemble?, hblank] at h
  | false => rfl

/-- A file holds one text only. -/
theorem source_eq {S : Storage} {files : S.Files} {path source source' : Text}
    (h : S.read files path = .ok (Text.utf8 source))
    (h' : S.read files path = .ok (Text.utf8 source')) : source' = source := by
  have hbytes : Text.utf8 source' = Text.utf8 source := Except.ok.inj (h'.symm.trans h)
  have hleft := decodeText?_eq_some_iff.mpr hbytes
  have hright := decodeText?_eq_some_iff.mpr (rfl : Text.utf8 source = Text.utf8 source)
  exact Option.some.inj (hleft.symm.trans hright)

section Ways

variable {S : Storage} {o : Options} {files files' files'' : S.Files} {listing path : Text}
  {place : S.Place} {outcome : Except Failure Unit} {deeds : List Deed}

namespace Listed

/-- A listing reaches no other place than its own. -/
theorem content_eq (h : Listed S o files listing files')
    (hother : ∀ path, o.listing = some path → S.place files path ≠ .ok place) :
    S.content files' place = S.content files place := by
  cases h with
  | printed _ => rfl
  | stored hlisting hwrite => exact S.content_of_write hwrite (hother _ hlisting)

/-- A listing moves no file: paths lead where they led. -/
theorem place_iff (h : Listed S o files listing files') :
    S.place files' path = .ok place ↔ S.place files path = .ok place := by
  cases h with
  | printed _ => rfl
  | stored _ hwrite => exact S.place_of_write hwrite

/-- Files that are apart stay apart. -/
theorem apart_iff (h : Listed S o files listing files') {path' : Text} :
    S.Apart files' path path' ↔ S.Apart files path path' := by
  simp only [Storage.Apart, ne_eq, h.place_iff]

theorem current_eq (h : Listed S o files listing files') : S.current files' = S.current files := by
  cases h with
  | printed _ => rfl
  | stored _ hwrite => exact S.current_of_write hwrite

/-- A listing leaves the object file as it was, if that is another file. -/
theorem former (h : Listed S o files listing files')
    (hapart : ∀ path, o.listing = some path → S.Apart files path o.output) :
    (∀ p, S.place files o.output = .ok p → S.content files' p = S.content files p) ∧
      ∀ contents, S.read files' o.output = .ok contents ↔ S.read files o.output = .ok contents := by
  constructor
  · intro p hplace
    exact h.content_eq fun path hpath hlisting => hapart path hpath p hlisting hplace
  · intro contents
    cases h with
    | printed _ => rfl
    | stored hlisting hwrite => exact S.read_write_iff hwrite (hapart _ hlisting)

/-- What is in the file of the listing. -/
theorem read_listing (h : Listed S o files listing files') (hpath : o.listing = some path) :
    S.read files' path = .ok (Text.utf8 listing) := by
  cases h with
  | printed hlisting => simp [hpath] at hlisting
  | stored hlisting hwrite =>
      cases hpath.symm.trans hlisting
      exact S.read_of_write hwrite

/-- There is one way to deliver a listing. -/
theorem unique (h : Listed S o files listing files') (h' : Listed S o files listing files'') :
    files' = files'' := by
  cases h with
  | printed hnone =>
      cases h' with
      | printed _ => rfl
      | stored hsome _ => simp [hnone] at hsome
  | stored hsome hwrite =>
      cases h' with
      | printed hnone => simp [hnone] at hsome
      | stored hsome' hwrite' =>
          cases hsome.symm.trans hsome'
          exact Except.ok.inj (hwrite.symm.trans hwrite')

end Listed

/-- All steps succeed, from the reading of the source to the writing of the object
file. -/
def Succeeds (S : Storage) (o : Options) (files : S.Files) : Prop :=
  ∃ source c files' contents files'', S.read files o.input = .ok (Text.utf8 source) ∧
    assemble? source = some c ∧ c.report.hasErrors = false ∧ Listed S o files c.listing files' ∧
    c.objectFile? o = some contents ∧ S.write files' o.output contents = .ok files''

namespace Course

/-- **Nothing but the listing and the object file changes.** -/
theorem content_eq (h : Course S o files outcome files' deeds)
    (hlisting : ∀ path, o.listing = some path → S.place files path ≠ .ok place)
    (houtput : S.place files o.output ≠ .ok place) :
    S.content files' place = S.content files place := by
  cases h with
  | unread | notText | blank | unlisted => rfl
  | rejected _ _ hlisted _ => exact hlisted.content_eq hlisting
  | unwritten _ _ hlisted _ _ => exact hlisted.content_eq hlisting
  | done _ _ hlisted _ hwrite =>
      have houtput' := fun hplace => houtput (hlisted.place_iff.mp hplace)
      rw [S.content_of_write hwrite houtput', hlisted.content_eq hlisting]

theorem current_eq (h : Course S o files outcome files' deeds) :
    S.current files' = S.current files := by
  cases h with
  | unread | notText | blank | unlisted => rfl
  | rejected _ _ hlisted _ => exact hlisted.current_eq
  | unwritten _ _ hlisted _ _ => exact hlisted.current_eq
  | done _ _ hlisted _ hwrite => rw [S.current_of_write hwrite, hlisted.current_eq]

/-- Paths lead where they led. -/
theorem place_iff (h : Course S o files outcome files' deeds) :
    S.place files' path = .ok place ↔ S.place files path = .ok place := by
  cases h with
  | unread | notText | blank | unlisted => rfl
  | rejected _ _ hlisted _ => exact hlisted.place_iff
  | unwritten _ _ hlisted _ _ => exact hlisted.place_iff
  | done _ _ hlisted _ hwrite => exact (S.place_of_write hwrite).trans hlisted.place_iff

/-- **After a failure the object file is the former one.** -/
theorem former (h : Course S o files outcome files' deeds) (hfail : outcome ≠ .ok ())
    (hapart : ∀ path, o.listing = some path → S.Apart files path o.output) :
    (∀ p, S.place files o.output = .ok p → S.content files' p = S.content files p) ∧
      ∀ contents, S.read files' o.output = .ok contents ↔ S.read files o.output = .ok contents := by
  cases h with
  | unread | notText | blank | unlisted => exact ⟨fun _ _ => rfl, fun _ => Iff.rfl⟩
  | rejected _ _ hlisted _ => exact hlisted.former hapart
  | unwritten _ _ hlisted _ _ => exact hlisted.former hapart
  | done => exact absurd rfl hfail

/-- **All that is delivered**, and for which sources. -/
theorem delivered (h : Course S o files outcome files' deeds) :
    deeds = [] ∨ ∃ source c, S.read files o.input = .ok (Text.utf8 source) ∧
      assemble? source = some c ∧ (deeds = [o.listingDeed c.listing] ∨
        ∃ contents, c.report.hasErrors = false ∧ c.objectFile? o = some contents ∧
          deeds = [o.listingDeed c.listing, .stored o.output contents] ∧
          S.read files' o.output = .ok contents) := by
  cases h with
  | unread | notText | blank | unlisted => exact .inl rfl
  | rejected hread hassembly _ _ => exact .inr ⟨_, _, hread, hassembly, .inl rfl⟩
  | unwritten hread hassembly _ _ _ => exact .inr ⟨_, _, hread, hassembly, .inl rfl⟩
  | done hread hassembly _ hbytes hwrite =>
      refine .inr ⟨_, _, hread, hassembly, .inr ⟨_, ?_, objectFile?_of_objectBytes hbytes, rfl,
        S.read_of_write hwrite⟩⟩
      exact hasErrors_of_objectBytes hassembly hbytes

/-- **Every source that can be read and is not blank is listed**, unless that
fails. -/
theorem listed (h : Course S o files outcome files' deeds) {source : Text}
    (hread : S.read files o.input = .ok (Text.utf8 source))
    (hblank : Text.isAllBlank source = false) :
    ∃ c, assemble? source = some c ∧
      ((∃ path fault, o.listing = some path ∧
          S.write files path (Text.utf8 c.listing) = .error fault ∧ deeds = []) ∨
        (∃ before, Listed S o files c.listing before) ∧
        deeds.head? = some (o.listingDeed c.listing) ∧
        deeds.flatMap Deed.text = (o.listingDeed c.listing).text ∧
        ∀ path, o.listing = some path → S.Apart files o.output path ∨ c.report.hasErrors = true →
          S.read files' path = .ok (Text.utf8 c.listing)) := by
  cases h with
  | unread hread' => cases hread'.symm.trans hread
  | notText hread' hbytes =>
      cases hread'.symm.trans hread
      exact absurd rfl (hbytes source)
  | blank hread' hblank' =>
      rw [source_eq hread hread', hblank] at hblank'
      cases hblank'
  | unlisted hread' hassembly hlisting hwrite =>
      obtain rfl := source_eq hread hread'
      exact ⟨_, hassembly, .inl ⟨_, _, hlisting, hwrite, rfl⟩⟩
  | rejected hread' hassembly hlisted _ =>
      obtain rfl := source_eq hread hread'
      exact ⟨_, hassembly, .inr ⟨⟨_, hlisted⟩, rfl, by simp,
        fun _ hpath _ => hlisted.read_listing hpath⟩⟩
  | unwritten hread' hassembly hlisted _ _ =>
      obtain rfl := source_eq hread hread'
      exact ⟨_, hassembly, .inr ⟨⟨_, hlisted⟩, rfl, by simp,
        fun _ hpath _ => hlisted.read_listing hpath⟩⟩
  | done hread' hassembly hlisted hbytes hwrite =>
      obtain rfl := source_eq hread hread'
      refine ⟨_, hassembly, .inr ⟨⟨_, hlisted⟩, rfl, by simp [Deed.text],
        fun path hpath hkept => ?_⟩⟩
      rcases hkept with hapart | herrors
      · exact (S.read_write_iff hwrite (hlisted.apart_iff.mpr hapart)).mpr
          (hlisted.read_listing hpath)
      · rw [hasErrors_of_objectBytes hassembly hbytes] at herrors
        cases herrors

/-- **A session ends well exactly if all its steps succeed.** -/
theorem eq_ok_iff (h : Course S o files outcome files' deeds) :
    outcome = .ok () ↔ Succeeds S o files := by
  constructor
  · rintro rfl
    cases h with
    | done hread hassembly hlisted hbytes hwrite =>
        exact ⟨_, _, _, _, _, hread, hassembly, hasErrors_of_objectBytes hassembly hbytes, hlisted,
          objectFile?_of_objectBytes hbytes, hwrite⟩
  · rintro ⟨source, c, before, contents, after, hread, hassembly, herrors, hlisted, hcontents,
      hwrite⟩
    cases h with
    | done => rfl
    | unread hread' => cases hread'.symm.trans hread
    | notText hread' hbytes =>
        cases hread'.symm.trans hread
        exact absurd rfl (hbytes source)
    | blank hread' hblank =>
        rw [source_eq hread hread'] at hblank
        simp [assemble?, hblank] at hassembly
    | unlisted hread' hassembly' hlisting hfault =>
        obtain rfl := source_eq hread hread'
        cases hassembly'.symm.trans hassembly
        cases hlisted with
        | printed hnone => simp [hlisting] at hnone
        | stored hsome hstored =>
            cases hlisting.symm.trans hsome
            cases hfault.symm.trans hstored
    | rejected hread' hassembly' _ hnone =>
        obtain rfl := source_eq hread hread'
        cases hassembly'.symm.trans hassembly
        rw [objectBytes_eq_none_iff hassembly, herrors] at hnone
        cases hnone
    | unwritten hread' hassembly' hlisted' hbytes hfault =>
        obtain rfl := source_eq hread hread'
        cases hassembly'.symm.trans hassembly
        cases (objectFile?_of_objectBytes hbytes).symm.trans hcontents
        rw [hlisted'.unique hlisted, hwrite] at hfault
        cases hfault

end Course

end Ways

/-! ### The object file is guarded -/

/-- What holds of every session that begins with the given files and ends with an
exit code and a journal. -/
structure Guarded (S : Storage) (o : Options) (files : S.Files) (code : UInt32)
    (j : Journal S) : Prop where
  /-- No place changes but that of the listing and that of the object file. -/
  untouched : ∀ place, (∀ path, o.listing = some path → S.place files path ≠ .ok place) →
    S.place files o.output ≠ .ok place → S.content j.files place = S.content files place
  current : S.current j.files = S.current files
  /-- Every path leads where it led. -/
  paths : ∀ path place, S.place j.files path = .ok place ↔ S.place files path = .ok place
  /-- The listing is delivered first.  The object file follows it only if there are
  no errors, and holds the object code then. -/
  delivered : j.deeds = [] ∨ ∃ source c, S.read files o.input = .ok (Text.utf8 source) ∧
    Text.isAllBlank source = false ∧ assemble? source = some c ∧
    (j.deeds = [o.listingDeed c.listing] ∨
      ∃ contents, c.report.hasErrors = false ∧ c.objectFile? o = some contents ∧
        j.deeds = [o.listingDeed c.listing, .stored o.output contents] ∧
        S.read j.files o.output = .ok contents)
  /-- Every source that can be read and is not blank is listed, errors or not,
  unless the listing cannot be written. -/
  listed : ∀ source, S.read files o.input = .ok (Text.utf8 source) →
    Text.isAllBlank source = false → ∃ c, assemble? source = some c ∧
      ((∃ path fault, o.listing = some path ∧
          S.write files path (Text.utf8 c.listing) = .error fault ∧ j.deeds = []) ∨
        (∃ before, Listed S o files c.listing before) ∧
        j.deeds.head? = some (o.listingDeed c.listing) ∧
        (o.listing = none → j.printed = c.listing ++ ['\n']) ∧
        ∀ path, o.listing = some path → S.Apart files o.output path ∨ c.report.hasErrors = true →
          S.read j.files path = .ok (Text.utf8 c.listing))
  /-- Nothing else is printed. -/
  printed : j.printed = j.deeds.flatMap Deed.text
  succeeds_iff : code = 0 ↔ Succeeds S o files
  fails_iff : code = 1 ↔ ¬Succeeds S o files
  /-- A session that fails leaves the object file as it was. -/
  former : code ≠ 0 → (∀ path, o.listing = some path → S.Apart files path o.output) →
    (∀ place, S.place files o.output = .ok place →
        S.content j.files place = S.content files place) ∧
      ∀ contents, S.read j.files o.output = .ok contents ↔
        S.read files o.output = .ok contents

/-- All that is said of a session follows from the way in which it went. -/
theorem Goes.guarded {S : Storage} {o : Options} {files : S.Files} {outcome : Except Failure Unit}
    {j : Journal S} {code : UInt32} (h : Goes S o files (outcome, j))
    (hcode : code = outcome.casesOn (fun _ => 1) (fun _ => 0)) : Guarded S o files code j := by
  obtain ⟨hcourse, hprinted⟩ := h
  have hzero : code = 0 ↔ outcome = .ok () := by
    rw [hcode]
    cases outcome <;> simp
  have hone : code = 1 ↔ ¬outcome = .ok () := by
    rw [hcode]
    cases outcome <;> simp
  refine ⟨fun place => hcourse.content_eq, hcourse.current_eq, fun _ _ => hcourse.place_iff,
    ?_, ?_, hprinted, hzero.trans hcourse.eq_ok_iff, hone.trans (not_congr hcourse.eq_ok_iff),
    fun hfail => hcourse.former fun hok => hfail (hzero.mpr hok)⟩
  · refine hcourse.delivered.imp_right ?_
    rintro ⟨source, c, hread, hassembly, hdeeds⟩
    exact ⟨source, c, hread, isAllBlank_of_assemble? hassembly, hassembly, hdeeds⟩
  · intro source hread hblank
    obtain ⟨c, hassembly, hrest⟩ := hcourse.listed hread hblank
    refine ⟨c, hassembly, hrest.imp_right ?_⟩
    rintro ⟨hlisted, hfirst, htext, hheld⟩
    refine ⟨hlisted, hfirst, fun hnone => ?_, hheld⟩
    rw [hprinted, htext, Options.listingDeed, hnone, Deed.text]

/-- **The object file is touched only if the assembly succeeded**, whatever the
files are stored in.  On the tree of files the journal that is spoken of is that of
the session itself. -/
theorem object_file_guarded (o : Options) :
    (∀ (S : Storage) (files : S.Files),
      Guarded S o files (o.record S files).1 (o.record S files).2) ∧
    ∀ files : FileSystem, (Request.assemble o).runOn files =
      ((o.record FileSystem.storage files).1, (o.record FileSystem.storage files).2.world) := by
  refine ⟨fun S files => ?_, runOn_eq_record o⟩
  obtain ⟨outcome, hgoes, hcode⟩ := exists_course_record o files
  exact hgoes.guarded hcode

/-- A source that misspells a number, with the object file of an earlier session
beside it: the listing is written anew, and the object file stays.  The object file
also stays, and nothing is delivered, if the listing of that session may be read but
not written. -/
theorem object_file_guarded_stale :
    let source := "P SEGMENT\nN DB 1x\nP ENDS\nEND".toList
    let o : Options := { input := "n.asm".toList, listing := some "n.lst".toList }
    let files : FileSystem :=
      { nodes := [(["n.asm".toList], .file (Text.utf8 source)),
          (["program.obj".toList], .file [7])] }
    let S := FileSystem.storage.refusing fun _ path =>
      if path = "n.lst".toList then some .denied else none
    (∃ c, assemble? source = some c ∧ ((Request.assemble o).runOn files).1 = 1 ∧
      ((Request.assemble o).runOn files).2.files.read "n.lst".toList =
        .ok (Text.utf8 c.listing) ∧
      ((Request.assemble o).runOn files).2.files.read "program.obj".toList = .ok [7]) ∧
    (o.record S files).1 = 1 ∧ (o.record S files).2.deeds = [] ∧
      S.read (o.record S files).2.files "program.obj".toList = .ok [7] := by
  intro source o files S
  have hread : files.read o.input = .ok (Text.utf8 source) := by decide
  have hassembly := assemble?_of_not_blank (show Text.isAllBlank source = false by decide)
  have herrors : (Layout.ofSource source).report.hasErrors = true := by decide
  have hapart : ∀ path, o.listing = some path → FileSystem.storage.Apart files path o.output := by
    intro path hpath place hplace hother
    obtain rfl : "n.lst".toList = path := Option.some.inj hpath
    have hne : files.place "n.lst".toList ≠ files.place o.output := by decide
    exact hne (hplace.trans hother.symm)
  obtain ⟨hguarded, hrun⟩ := object_file_guarded o
  constructor
  · have hhere := hguarded FileSystem.storage files
    have hfails : ¬Succeeds FileSystem.storage o files := by
      rintro ⟨source', c, -, -, -, hread', hassembly', hclean, -⟩
      obtain rfl := source_eq (S := FileSystem.storage) hread hread'
      cases hassembly.symm.trans hassembly'
      cases herrors.symm.trans hclean
    have hcode := hhere.fails_iff.mpr hfails
    obtain ⟨c, hc, hlisted⟩ := hhere.listed source hread (by decide)
    cases hassembly.symm.trans hc
    rw [hrun]
    refine ⟨_, hassembly, hcode, ?_, ?_⟩
    · rcases hlisted with ⟨path, fault, hpath, hwrite, -⟩ | ⟨-, -, -, hheld⟩
      · obtain rfl : "n.lst".toList = path := Option.some.inj hpath
        have hfree : ∀ contents, files.write "n.lst".toList contents =
            .ok (files.store ["n.lst".toList] contents) := fun contents =>
          FileSystem.write_eq_ok_iff.mpr
            ⟨["n.lst".toList], none, by decide, by decide, by decide, by decide, by decide, rfl⟩
        cases hwrite.symm.trans (hfree _)
      · exact hheld _ rfl (.inr herrors)
    · have hzero : (o.record FileSystem.storage files).1 ≠ 0 := by
        rw [hcode]
        decide
      exact ((hhere.former hzero hapart).2 [7]).mpr (by decide)
  · have hthere := hguarded S files
    -- whatever the listing is, its file is not written
    have hunlisted : ∀ listing before, ¬Listed S o files listing before := by
      intro listing before hlisted
      cases hlisted with
      | printed hnone => cases hnone
      | stored hsome hwrite =>
          cases hsome
          cases hwrite
    have hfails : ¬Succeeds S o files := by
      rintro ⟨_, _, _, _, _, -, -, -, hlisted, -⟩
      exact hunlisted _ _ hlisted
    have hcode := hthere.fails_iff.mpr hfails
    have hzero : (o.record S files).1 ≠ 0 := by
      rw [hcode]
      decide
    obtain ⟨c, -, ⟨-, -, -, -, hnone⟩ | ⟨⟨before, hlisted⟩, -⟩⟩ :=
      hthere.listed source hread (by decide)
    · exact ⟨hcode, hnone, ((hthere.former hzero hapart).2 [7]).mpr (by decide)⟩
    · exact absurd hlisted (hunlisted _ _)

end SegmentAssembler
