import SegmentAssembler.Command.FileSystem
import SegmentAssembler.Command.Options
import SegmentAssembler.Assembly

/-!
# A session of the command

What the command does with the files and the terminal that it is given.  The
source is read and assembled, the listing is delivered even if there are
errors, and the object file is written last and only without errors.  The
first step that fails ends the session.

The session is written for any host that offers files, a terminal and a log;
`Machine` is the host whose files are a `FileSystem`.
-/

namespace SegmentAssembler

/-! ### Hosts -/

/-- What a session needs from its surroundings. -/
class Host (m : Type → Type) where
  read : Text → m (Except Fault (List UInt8))
  write : Text → List UInt8 → m (Except Fault Unit)
  print : Text → m Unit
  log : Event → m Unit

/-! ### Failures -/

/-- The wording of a fault. -/
def Fault.message : Fault → Text
  | .noEntry => "No such file or directory (os error 2)".toList
  | .denied => "Permission denied (os error 13)".toList
  | .notDirectory => "Not a directory (os error 20)".toList
  | .isDirectory => "Is a directory (os error 21)".toList
  | .nameTooLong => "File name too long (os error 36)".toList
  | .other code text => text ++ " (os error ".toList ++ Numeral.decimal code ++ ")".toList

/-- Why a session ends without an object file. -/
inductive Failure where
  | fault (f : Fault)
  /-- The source is not a text in UTF-8. -/
  | notText
  | emptySource (path : Text)
  | rejected (errors : Nat)
deriving DecidableEq, Repr

def Failure.message : Failure → Text
  | .fault f => f.message
  | .notText => "stream did not contain valid UTF-8".toList
  | .emptySource path => "nothing to assemble in `".toList ++ path ++ "`".toList
  | .rejected errors =>
    Numeral.decimal errors ++ " error(s) in source, object code withheld".toList

/-! ### The session -/

section

variable {m : Type → Type} [Monad m] [Host m]

/-- The text that bytes stand for, if they are UTF-8. -/
def decodeText? (bytes : List UInt8) : Option Text :=
  (String.fromUTF8? ⟨bytes.toArray⟩).map String.toList

/-- Read the source. -/
def readSource (path : Text) : m (Except Failure Text) := do
  match ← Host.read path with
  | .error fault => return .error (.fault fault)
  | .ok bytes =>
    match decodeText? bytes with
    | none => return .error .notText
    | some source => return .ok source

/-- Store bytes in a file. -/
def storeFile (path : Text) (bytes : List UInt8) : m (Except Failure Unit) := do
  match ← Host.write path bytes with
  | .error fault => return .error (.fault fault)
  | .ok () => return .ok ()

/-- Store the listing in its file, or print it with a line feed after it. -/
def deliverListing (o : Options) (listing : Text) : m (Except Failure Unit) := do
  match o.listing with
  | some path => storeFile path (Text.utf8 listing)
  | none =>
    Host.print (listing ++ ['\n'])
    return .ok ()

/-- What the object file holds. -/
def objectContents (o : Options) (bytes : List UInt8) : List UInt8 :=
  if o.binary then bytes else Text.utf8 (binaryText bytes)

/-- Deliver the results of an assembly: the listing, then the object code. -/
def deliver (o : Options) (c : Assembly) : m (Except Failure Unit) := do
  match ← deliverListing o c.listing with
  | .error failure => return .error failure
  | .ok () =>
    match c.objectBytes with
    | none => return .error (.rejected c.report.errorCount)
    | some bytes =>
      match ← storeFile o.output (objectContents o bytes) with
      | .error failure => return .error failure
      | .ok () =>
        Host.log (.written bytes.length o.output)
        return .ok ()

/-- Assemble a file. -/
def assembleFile (o : Options) : m (Except Failure Unit) := do
  match ← readSource o.input with
  | .error failure => return .error failure
  | .ok source =>
    Host.log (.assembling o.input)
    match assemble? source with
    | none => return .error (.emptySource o.input)
    | some c =>
      c.events.forM Host.log
      deliver o c

/-- Assemble a file and report a failure.  The exit code tells whether all went well. -/
def session (o : Options) : m UInt32 := do
  match ← assembleFile o with
  | .ok () => return 0
  | .error failure =>
    Host.log (.failed failure.message)
    return 1

/-- The name and version of the program. -/
def versionText : Text := "segasm 0.1.0\n".toList

/-- The summary of the command line. -/
def helpText : Text :=
  ("Segment assembler: listing + object code\n\n"
    ++ "Usage: segasm [OPTIONS] <INPUT>\n\n"
    ++ "Arguments:\n"
    ++ "  <INPUT>  Input ASM source\n\n"
    ++ "Options:\n"
    ++ "  -l, --listing <LISTING>      Listing file (default: stdout)\n"
    ++ "  -o, --output <OUTPUT>        Object code file [default: program.obj]\n"
    ++ "      --binary                 Write raw object bytes instead of binary-digit text\n"
    ++ "      --log-level <LOG_LEVEL>  One of `TRACE`, `DEBUG`, `INFO`, `WARN`, or `ERROR` "
    ++ "[default: WARN]\n"
    ++ "  -h, --help                   Print help\n"
    ++ "  -V, --version                Print version\n").toList

/-- Do what a command line asks for. -/
def perform : Request → m UInt32
  | .assemble o => session o
  | .version => do
    Host.print versionText
    return 0
  | .help => do
    Host.print helpText
    return 0
  | .invalid => return 2

end

/-! ### The machine -/

/-- Files, what has been printed, and the events so far. -/
structure World where
  files : FileSystem := {}
  printed : Text := []
  events : List Event := []
deriving DecidableEq, Repr

/-- A host made of values. -/
abbrev Machine := StateM World

instance : Host Machine where
  read path := fun w => (w.files.read path, w)
  write path bytes := fun w =>
    match w.files.write path bytes with
    | .ok files => (.ok (), { w with files })
    | .error fault => (.error fault, w)
  print text := fun w => ((), { w with printed := w.printed ++ text })
  log event := fun w => ((), { w with events := w.events ++ [event] })

/-- Do what a request asks for, beginning with the given files. -/
def Request.runOn (request : Request) (files : FileSystem) : UInt32 × World :=
  (perform request : Machine UInt32) { files }

end SegmentAssembler
