import SegmentAssembler.Command.FileSystem

/-!
# What storing a file does to the tree

A file is stored at the place that its path leads to, where there is nothing
yet or another file.  No directory comes or goes with that, so every path leads
after the writing to where it led before, and only the one place looks
different:

* `write_eq_ok_iff` — when a file is stored, and what the tree is then;
* `node?_store_of_ne` — every other place holds what it held;
* `place_store_iff` — paths lead where they led;
* `read_of_write` — the stored file is read back;
* `read_write_iff` — a path that leads elsewhere is read as before.

Only the cause for which a path leads nowhere may change: what was missing
before may be a file now, which is no directory either.

These are the laws of a `Storage`, which is all that a session has to know of the
files.  The tree is one storage (`FileSystem.storage`), and a storage with files
that are there for reading only is another one (`Storage.refusing`).
-/

namespace SegmentAssembler

namespace FileSystem

variable {fs fs' : FileSystem} {place other : Place} {path : Text} {contents : List UInt8}

/-! ### Places -/

theorem node?_nil (fs : FileSystem) : fs.node? [] = some .directory := if_pos rfl

/-- What is put in a place is seen there only. -/
private theorem lookup_replaced (nodes : List (Place × Node)) (node : Node) (h : other ≠ place) :
    ((place, node) :: nodes.filter fun entry => entry.1 != place).lookup other =
      nodes.lookup other := by
  have hfirst : (other == place) = false := beq_eq_false_iff_ne.mpr h
  rw [List.lookup_cons, hfirst]
  induction nodes with
  | nil => rfl
  | cons entry rest ih =>
      by_cases hentry : entry.1 = place
      · -- the old entry of the place is dropped, and it was not asked for
        have hother : (other == entry.1) = false := by rw [hentry, hfirst]
        rw [List.filter_cons_of_neg (by simp [hentry]), List.lookup_cons, hother]
        exact ih
      · rw [List.filter_cons_of_pos (by simp [hentry]), List.lookup_cons, List.lookup_cons]
        cases other == entry.1 with
        | true => rfl
        | false => exact ih

/-- A stored file stands in its place. -/
theorem node?_store_self (hplace : place ≠ []) (contents : List UInt8) :
    (fs.store place contents).node? place = some (.file contents) := by
  rw [node?, if_neg hplace, store, List.lookup_cons_self]

/-- **Every other place holds what it held.** -/
theorem node?_store_of_ne (h : other ≠ place) (contents : List UInt8) :
    (fs.store place contents).node? other = fs.node? other := by
  unfold node? store
  by_cases hother : other = []
  · rw [if_pos hother, if_pos hother]
  · rw [if_neg hother, if_neg hother]
    exact lookup_replaced fs.nodes (.file contents) h

/-- A place can be looked at if its name is not too long. -/
theorem look_eq_ok_iff {node : Option Node} :
    fs.look place = .ok node ↔
      (∀ name, place.getLast? = some name → (Text.utf8 name).length ≤ longestName) ∧
        fs.node? place = node := by
  unfold look
  cases place.getLast? with
  | none => simp
  | some name =>
      by_cases hlong : longestName < (Text.utf8 name).length
      · simp [hlong, Nat.not_le.mpr hlong]
      · simp [hlong, Nat.not_lt.mp hlong]

/-! ### Writing -/

/-- **When a file is stored.**  Its path leads to a place that is free or holds a
file. -/
theorem write_eq_ok_iff :
    fs.write path contents = .ok fs' ↔
      ∃ place node, fs.place path = .ok place ∧ endsInSlash path = false ∧
        fs.look place = .ok node ∧ node ≠ some .directory ∧ node ≠ some .locked ∧
        fs' = fs.store place contents := by
  unfold write
  cases fs.place path with
  | error fault => simp
  | ok place =>
      cases endsInSlash path with
      | true => simp
      | false =>
          cases hlook : fs.look place with
          | error fault => simp [hlook]
          | ok node =>
              match node with
              | none => simp [hlook, eq_comm]
              | some (.file old) => simp [hlook, eq_comm]
              | some .directory => simp [hlook]
              | some .locked => simp [hlook]

/-- A place where a file may be stored. -/
def Storable (fs : FileSystem) (place : Place) : Prop := fs.node? place ≠ some .directory

/-- The place of a file that was stored, which is not the root or another
directory. -/
theorem exists_storable_of_write (h : fs.write path contents = .ok fs') :
    ∃ place, fs.place path = .ok place ∧ fs.Storable place ∧ fs' = fs.store place contents := by
  obtain ⟨place, node, hplace, -, hlook, hdirectory, -, hstore⟩ := write_eq_ok_iff.mp h
  refine ⟨place, hplace, ?_, hstore⟩
  rw [Storable, (look_eq_ok_iff.mp hlook).2]
  exact hdirectory

/-- No file is stored in place of the root. -/
theorem Storable.ne_nil (h : fs.Storable place) : place ≠ [] := by
  rintro rfl
  exact h fs.node?_nil

/-! ### Paths after the writing -/

section Paths

variable (hplace : fs.Storable place) (contents : List UInt8)

include hplace

/-- No directory comes or goes. -/
theorem directory_store_iff :
    (fs.store place contents).node? other = some .directory ↔
      fs.node? other = some .directory := by
  by_cases hother : other = place
  · rw [hother, node?_store_self hplace.ne_nil]
    constructor
    · intro h
      cases h
    · intro h
      exact absurd h hplace
  · rw [node?_store_of_ne hother]

/-- A stored file leaves the directories as they are, so a step leads where it led. -/
theorem enter_store_iff {directory inner : Place} {part : Text} :
    (fs.store place contents).enter directory part = .ok inner ↔
      fs.enter directory part = .ok inner := by
  -- apart from `.` and `..` it is all about the directory at the next place
  have hinto : ∀ files : FileSystem, ¬(part = ['.'] ∨ part = ['.', '.']) →
      (files.enter directory part = .ok inner ↔
        files.look (step directory part) = .ok (some .directory) ∧
          step directory part = inner) := by
    intro files hpart
    rw [enter, if_neg hpart]
    cases files.look (step directory part) with
    | error fault => simp
    | ok node =>
        match node with
        | none => simp
        | some (.file old) => simp
        | some .directory => simp
        | some .locked => simp
  by_cases hpart : part = ['.'] ∨ part = ['.', '.']
  · rw [enter, enter, if_pos hpart, if_pos hpart]
  · rw [hinto _ hpart, hinto _ hpart, look_eq_ok_iff, look_eq_ok_iff,
      directory_store_iff hplace contents]

/-- The steps of a path lead where they led. -/
theorem follow_store_iff {directory : Place} {parts : List Text} :
    (fs.store place contents).follow directory parts = .ok other ↔
      fs.follow directory parts = .ok other := by
  induction parts generalizing directory with
  | nil => exact Iff.rfl
  | cons part rest ih =>
      cases rest with
      | nil => exact Iff.rfl
      | cons next rest =>
          have hstep : ∀ files : FileSystem, files.follow directory (part :: next :: rest) =
              .ok other ↔ ∃ inner, files.enter directory part = .ok inner ∧
                files.follow inner (next :: rest) = .ok other := by
            intro files
            rw [follow]
            cases files.enter directory part <;> simp
          rw [hstep, hstep]
          refine exists_congr fun inner => ?_
          rw [enter_store_iff hplace contents, ih]

/-- **Paths lead where they led.** -/
theorem place_store_iff :
    (fs.store place contents).place path = .ok other ↔ fs.place path = .ok other := by
  unfold FileSystem.place
  by_cases hempty : path = []
  · rw [if_pos hempty, if_pos hempty]
  · rw [if_neg hempty, if_neg hempty]
    by_cases hlong : longestPath < (Text.utf8 path).length
    · rw [if_pos hlong, if_pos hlong]
    · rw [if_neg hlong, if_neg hlong]
      exact follow_store_iff hplace contents

end Paths

/-! ### Reading after the writing -/

/-- A path is read if it leads to a file and does not end like that of a directory. -/
theorem read_eq_ok_iff :
    fs.read path = .ok contents ↔
      ∃ place, fs.place path = .ok place ∧ endsInSlash path = false ∧
        fs.look place = .ok (some (.file contents)) := by
  unfold read
  cases fs.place path with
  | error fault => simp
  | ok place =>
      cases hlook : fs.look place with
      | error fault => simp [hlook]
      | ok node =>
          match node with
          | none => simp [hlook]
          | some (.file old) => cases endsInSlash path <;> simp [hlook]
          | some .directory => simp [hlook]
          | some .locked => simp [hlook]

/-- **The stored file is read back.** -/
theorem read_of_write (h : fs.write path contents = .ok fs') : fs'.read path = .ok contents := by
  obtain ⟨place, node, hplace, hslash, hlook, hdirectory, -, rfl⟩ := write_eq_ok_iff.mp h
  obtain ⟨hname, hnode⟩ := look_eq_ok_iff.mp hlook
  have hstorable : fs.Storable place := by
    rw [Storable, hnode]
    exact hdirectory
  refine read_eq_ok_iff.mpr ⟨place, (place_store_iff hstorable contents).mpr hplace, hslash, ?_⟩
  exact look_eq_ok_iff.mpr ⟨hname, node?_store_self hstorable.ne_nil contents⟩

/-- **A path that leads elsewhere is read as before.** -/
theorem read_write_iff {path' : Text} {held : List UInt8}
    (h : fs.write path contents = .ok fs')
    (hapart : ∀ place, fs.place path = .ok place → fs.place path' ≠ .ok place) :
    fs'.read path' = .ok held ↔ fs.read path' = .ok held := by
  obtain ⟨place, hplace, hstorable, rfl⟩ := exists_storable_of_write h
  rw [read_eq_ok_iff, read_eq_ok_iff]
  refine exists_congr fun other => ?_
  rw [place_store_iff hstorable contents]
  refine and_congr_right fun hother => ?_
  have hne : other ≠ place := by
    rintro rfl
    exact hapart _ hplace hother
  rw [look_eq_ok_iff, look_eq_ok_iff, node?_store_of_ne hne]

/-- Writing changes no other place. -/
theorem node?_of_write (h : fs.write path contents = .ok fs')
    (hother : fs.place path ≠ .ok other) : fs'.node? other = fs.node? other := by
  obtain ⟨place, hplace, -, rfl⟩ := exists_storable_of_write h
  refine node?_store_of_ne ?_ contents
  rintro rfl
  exact hother hplace

/-- **Paths lead where they led** before the writing. -/
theorem place_of_write {path' : Text} (h : fs.write path contents = .ok fs') :
    fs'.place path' = .ok other ↔ fs.place path' = .ok other := by
  obtain ⟨place, -, hstorable, rfl⟩ := exists_storable_of_write h
  exact place_store_iff hstorable contents

/-- The working directory stays. -/
theorem current_of_write (h : fs.write path contents = .ok fs') : fs'.current = fs.current := by
  obtain ⟨place, -, -, rfl⟩ := exists_storable_of_write h
  rfl

end FileSystem

/-! ### Storages -/

/-- A storage of files, whatever it is made of.  A path leads to a place, and a file
is read and written by its path.  Writing stores exactly the bytes that it is given,
or it fails; then it hands back no files, and those before it are kept.

Why a writing fails is left open, and so is whether what can be read can be
written. -/
structure Storage where
  Files : Type
  Place : Type
  /-- What may stand at a place. -/
  Content : Type
  /-- The working directory. -/
  current : Files → Place
  place : Files → Text → Except Fault Place
  content : Files → Place → Content
  read : Files → Text → Except Fault (List UInt8)
  write : Files → Text → List UInt8 → Except Fault Files
  current_of_write : ∀ {files files' path contents}, write files path contents = .ok files' →
    current files' = current files
  /-- Paths lead where they led. -/
  place_of_write : ∀ {files files' path contents}, write files path contents = .ok files' →
    ∀ {path' p}, place files' path' = .ok p ↔ place files path' = .ok p
  /-- Every other place holds what it held. -/
  content_of_write : ∀ {files files' path contents}, write files path contents = .ok files' →
    ∀ {p}, place files path ≠ .ok p → content files' p = content files p
  /-- The stored file is read back. -/
  read_of_write : ∀ {files files' path contents}, write files path contents = .ok files' →
    read files' path = .ok contents
  /-- A path that leads elsewhere is read as before. -/
  read_write_iff : ∀ {files files' path contents}, write files path contents = .ok files' →
    ∀ {path' held}, (∀ p, place files path = .ok p → place files path' ≠ .ok p) →
      (read files' path' = .ok held ↔ read files path' = .ok held)

/-- The files of two paths are not the same one. -/
def Storage.Apart (S : Storage) (files : S.Files) (path path' : Text) : Prop :=
  ∀ p, S.place files path = .ok p → S.place files path' ≠ .ok p

/-- The tree of files and directories. -/
@[reducible] def FileSystem.storage : Storage where
  Files := FileSystem
  Place := Place
  Content := Option Node
  current := FileSystem.current
  place := FileSystem.place
  content := FileSystem.node?
  read := FileSystem.read
  write := FileSystem.write
  current_of_write h := FileSystem.current_of_write h
  place_of_write h := FileSystem.place_of_write h
  content_of_write h := FileSystem.node?_of_write h
  read_of_write h := FileSystem.read_of_write h
  read_write_iff h := FileSystem.read_write_iff h

namespace Storage

variable {S : Storage} {refuses : S.Files → Text → Option Fault}

/-- What a storage that refuses some files makes of a writing. -/
def writeUnless (refuses : S.Files → Text → Option Fault) (files : S.Files) (path : Text)
    (contents : List UInt8) : Except Fault S.Files :=
  (refuses files path).elim (S.write files path contents) .error

/-- What is stored has not been refused. -/
theorem write_of_writeUnless {files files' : S.Files} {path : Text} {contents : List UInt8}
    (h : writeUnless refuses files path contents = .ok files') :
    S.write files path contents = .ok files' := by
  unfold writeUnless at h
  cases hrefuses : refuses files path with
  | none => rwa [hrefuses] at h
  | some fault =>
      rw [hrefuses] at h
      cases h

/-- The storage in which the writing of some files is refused, although they may be
read. -/
@[reducible] def refusing (S : Storage) (refuses : S.Files → Text → Option Fault) : Storage where
  Files := S.Files
  Place := S.Place
  Content := S.Content
  current := S.current
  place := S.place
  content := S.content
  read := S.read
  write := writeUnless refuses
  current_of_write h := S.current_of_write (write_of_writeUnless h)
  place_of_write h := S.place_of_write (write_of_writeUnless h)
  content_of_write h := S.content_of_write (write_of_writeUnless h)
  read_of_write h := S.read_of_write (write_of_writeUnless h)
  read_write_iff h := S.read_write_iff (write_of_writeUnless h)

end Storage

end SegmentAssembler
