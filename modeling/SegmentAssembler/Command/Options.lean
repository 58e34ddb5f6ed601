import SegmentAssembler.Event

/-!
# Command line options

The command takes one input and a few options.  A setting is given as `-o P`,
`-oP`, `-o=P`, `--output P` or `--output=P`, each at most once, and `--` ends
the options.  The arguments are read from left to right; a request for the version
or for help is granted as soon as it is met, and so is a fault.

A word that begins with a hyphen is an option unless it is a lone hyphen or
stands after `--`, so it cannot be the value of a setting in a word of its own.
-/

namespace SegmentAssembler

/-- What an assembly is asked to do. -/
structure Options where
  input : Text
  /-- The file for the listing, if it is not to be printed. -/
  listing : Option Text := none
  output : Text := "program.obj".toList
  /-- Store the bytes of the object record instead of its binary digits. -/
  binary : Bool := false
  level : Level := .warn
deriving DecidableEq, Repr

/-- What a command line asks for. -/
inductive Request where
  | assemble (o : Options)
  | version
  | help
  | invalid
deriving DecidableEq, Repr

/-- The level of the log that a request asks for. -/
def Request.level : Request → Level
  | .assemble o => o.level
  | _ => .warn

/-- The options that take a value. -/
inductive Setting where
  | listing | output | level
deriving DecidableEq, Repr

/-- A command line read in part. -/
structure Draft where
  input : Option Text := none
  listing : Option Text := none
  output : Option Text := none
  level : Option Level := none
  binary : Bool := false
  /-- The setting whose value is the next word. -/
  awaiting : Option Setting := none
  /-- The options have ended. -/
  ended : Bool := false
deriving DecidableEq, Repr

namespace Draft

/-- Give a value to a setting that has none. -/
def assign (d : Draft) (setting : Setting) (value : Text) : Except Request Draft :=
  match setting with
  | .listing =>
    if d.listing.isSome || value.isEmpty then .error .invalid
    else .ok { d with listing := some value, awaiting := none }
  | .output =>
    if d.output.isSome || value.isEmpty then .error .invalid
    else .ok { d with output := some value, awaiting := none }
  | .level =>
    match d.level, Level.ofWord? value with
    | none, some level => .ok { d with level := some level, awaiting := none }
    | _, _ => .error .invalid

/-- A setting with its value, or else with the next word as its value. -/
def assignOrAwait (d : Draft) (setting : Setting) : Option Text → Except Request Draft
  | some value => d.assign setting value
  | none => .ok { d with awaiting := some setting }

/-- Take a word as the input. -/
def takeInput (d : Draft) (word : Text) : Except Request Draft :=
  if d.input.isSome || word.isEmpty then .error .invalid else .ok { d with input := some word }

/-- An option with a long name, and the value joined to it by an equals sign. -/
def takeLong (d : Draft) (name : Text) (value : Option Text) : Except Request Draft :=
  if name = "listing".toList then d.assignOrAwait .listing value
  else if name = "output".toList then d.assignOrAwait .output value
  else if name = "log-level".toList then d.assignOrAwait .level value
  else if value.isSome then .error .invalid
  else if name = "binary".toList then
    if d.binary then .error .invalid else .ok { d with binary := true }
  else if name = "version".toList then .error .version
  else if name = "help".toList then .error .help
  else .error .invalid

/-- The value joined to a short option, with or without an equals sign. -/
def joinedValue : Text → Option Text
  | [] => none
  | '=' :: value => some value
  | value => some value

/-- An option with a name of one letter, and what is joined to it. -/
def takeShort (d : Draft) (letter : Char) (joined : Text) : Except Request Draft :=
  if letter = 'l' then d.assignOrAwait .listing (joinedValue joined)
  else if letter = 'o' then d.assignOrAwait .output (joinedValue joined)
  else if letter = 'V' then .error .version
  else if letter = 'h' then .error .help
  else .error .invalid

/-- The value after the first equals sign. -/
def valueAfterEquals (word : Text) : Option Text :=
  match word.dropWhile (· != '=') with
  | '=' :: value => some value
  | _ => none

/-- Read a word that begins with a hyphen. -/
def takeOption (d : Draft) : Text → Except Request Draft
  | '-' :: '-' :: [] => .ok { d with ended := true }
  | '-' :: '-' :: word => d.takeLong (word.takeWhile (· != '=')) (valueAfterEquals word)
  | '-' :: letter :: joined => d.takeShort letter joined
  | word => d.takeInput word

/-- The word begins with a hyphen and is not a lone one. -/
def isOption : Text → Bool
  | '-' :: _ :: _ => true
  | _ => false

/-- Read one word of the command line. -/
def take (d : Draft) (word : Text) : Except Request Draft :=
  if d.ended then d.takeInput word
  else
    match d.awaiting with
    | some setting => if isOption word then .error .invalid else d.assign setting word
    | none => d.takeOption word

/-- What a command line that has been read to its end asks for. -/
def request (d : Draft) : Request :=
  match d.awaiting, d.input with
  | none, some input =>
    .assemble
      { input, listing := d.listing, output := d.output.getD "program.obj".toList,
        binary := d.binary, level := d.level.getD .warn }
  | _, _ => .invalid

/-- Read the words of a command line. -/
def takeAll (d : Draft) : List Text → Request
  | [] => d.request
  | word :: rest =>
    match d.take word with
    | .ok next => next.takeAll rest
    | .error request => request

end Draft

/-- What the words of a command line ask for. -/
def Request.ofWords (words : List Text) : Request := Draft.takeAll {} words

end SegmentAssembler
