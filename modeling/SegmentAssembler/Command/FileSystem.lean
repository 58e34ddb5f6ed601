import SegmentAssembler.Text.Basic

/-!
# Files

A tree of files and directories, with a directory in which the command works.
A path is a text whose parts are divided by slashes.  It is followed from the
root if it begins with a slash and from the working directory otherwise: empty
parts and `.` stay where they are, `..` goes up as far as the root, and every
other part goes down.  All parts but the last have to lead into directories.

A path that ends in a slash means a directory, so it never leads to a file that
can be read or written.

Reading and writing either succeed or fail for a stated cause, and writing
changes the contents of one file and nothing else.
-/

namespace SegmentAssembler

/-- Why a file cannot be read or written. -/
inductive Fault where
  | noEntry
  | denied
  | notDirectory
  | isDirectory
  | nameTooLong
  /-- Any other cause, by its number and wording. -/
  | other (code : Nat) (text : Text)
deriving DecidableEq, Repr

/-- What stands at a place of the tree. -/
inductive Node where
  | file (contents : List UInt8)
  | directory
  /-- Something that may be neither read nor written. -/
  | locked
deriving DecidableEq, Repr

/-- A place in the tree: the names on the way from the root. -/
abbrev Place := List Text

/-- The places that hold something, and the working directory.  The root is
always a directory. -/
structure FileSystem where
  nodes : List (Place × Node) := []
  current : Place := []
deriving DecidableEq, Repr

/-- The greatest number of bytes in one part of a path. -/
def longestName : Nat := 255

/-- The greatest number of bytes in a path. -/
def longestPath : Nat := 4095

/-- The path means a directory. -/
def endsInSlash (path : Text) : Bool := path.getLast? == some '/'

namespace FileSystem

/-- What stands at a place. -/
def node? (fs : FileSystem) (place : Place) : Option Node :=
  if place = [] then some .directory else fs.nodes.lookup place

/-- Go from a directory one part of a path further.  Nothing need be there. -/
def step (directory : Place) (part : Text) : Place :=
  if part = ['.'] then directory
  else if part = ['.', '.'] then directory.dropLast
  else directory ++ [part]

/-- Look at a place.  No name in a directory is longer than `longestName`. -/
def look (fs : FileSystem) (place : Place) : Except Fault (Option Node) :=
  match place.getLast? with
  | none => .ok (fs.node? place)
  | some name =>
    if longestName < (Text.utf8 name).length then .error .nameTooLong else .ok (fs.node? place)

/-- Go from a directory one part of a path further, into a directory. -/
def enter (fs : FileSystem) (directory : Place) (part : Text) : Except Fault Place :=
  if part = ['.'] ∨ part = ['.', '.'] then .ok (step directory part)
  else
    match fs.look (step directory part) with
    | .error fault => .error fault
    | .ok (some .directory) => .ok (step directory part)
    | .ok (some (.file _)) => .error .notDirectory
    | .ok (some .locked) => .error .denied
    | .ok none => .error .noEntry

/-- Go through all parts but the last, and name the place that the last one means. -/
def follow (fs : FileSystem) (directory : Place) : List Text → Except Fault Place
  | [] => .ok directory
  | [part] => .ok (step directory part)
  | part :: next :: rest =>
    match fs.enter directory part with
    | .error fault => .error fault
    | .ok inner => fs.follow inner (next :: rest)

/-- The directory from which a path is followed. -/
def origin (fs : FileSystem) (path : Text) : Place :=
  if path.head? = some '/' then [] else fs.current

/-- The place that a path leads to; there need not be anything yet. -/
def place (fs : FileSystem) (path : Text) : Except Fault Place :=
  if path = [] then .error .noEntry
  else if longestPath < (Text.utf8 path).length then .error .nameTooLong
  else fs.follow (fs.origin path) ((path.splitOn '/').filter (· ≠ []))

/-- The contents of a file. -/
def read (fs : FileSystem) (path : Text) : Except Fault (List UInt8) :=
  match fs.place path with
  | .error fault => .error fault
  | .ok place =>
    match fs.look place with
    | .error fault => .error fault
    | .ok (some (.file contents)) =>
      if endsInSlash path then .error .notDirectory else .ok contents
    | .ok (some .directory) => .error .isDirectory
    | .ok (some .locked) => .error .denied
    | .ok none => .error .noEntry

/-- The tree with other contents at one place. -/
def store (fs : FileSystem) (place : Place) (contents : List UInt8) : FileSystem :=
  { fs with nodes := (place, .file contents) :: fs.nodes.filter fun entry => entry.1 != place }

/-- Store a file, which is new or replaces the one at its place. -/
def write (fs : FileSystem) (path : Text) (contents : List UInt8) : Except Fault FileSystem :=
  match fs.place path with
  | .error fault => .error fault
  | .ok place =>
    if endsInSlash path then .error .isDirectory
    else
      match fs.look place with
      | .error fault => .error fault
      | .ok (some .directory) => .error .isDirectory
      | .ok (some .locked) => .error .denied
      | .ok _ => .ok (fs.store place contents)

end FileSystem

end SegmentAssembler
