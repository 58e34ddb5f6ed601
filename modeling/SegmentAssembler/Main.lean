import SegmentAssembler.Command.Session

/-!
# The command

The session on the files and the terminal of the computer.  Log lines go to
the standard error output.
-/

namespace SegmentAssembler

/-- Sessions on the computer, with the level of the log. -/
abbrev Terminal := ReaderT Level IO

/-- The number of the cause behind a failed operation.  It may come negated. -/
def faultNumber (e : IO.Error) : UInt32 :=
  let number :=
    match e with
    | .noFileOrDirectory _ code _ => code
    | .permissionDenied _ code _ => code
    | .inappropriateType _ code _ => code
    | .invalidArgument _ code _ => code
    | .resourceExhausted _ code _ => code
    | .unsatisfiedConstraints code _ => code
    | .otherError code _ => code
    | _ => 0
  if number < 0x80000000 then number else 0 - number

/-- The cause behind a failed operation. -/
def Fault.ofError (e : IO.Error) : Fault :=
  match (faultNumber e).toNat with
  | 2 => .noEntry
  | 13 => .denied
  | 20 => .notDirectory
  | 21 => .isDirectory
  | 36 => .nameTooLong
  | code => .other code (toString e).toList

instance : Host Terminal where
  read path := do
    try
      let contents ← IO.FS.readBinFile (String.ofList path)
      return .ok contents.toList
    catch e => return .error (.ofError e)
  write path bytes := do
    try
      IO.FS.writeBinFile (String.ofList path) ⟨bytes.toArray⟩
      return .ok ()
    catch e => return .error (.ofError e)
  print text := do
    IO.print (String.ofList text)
    (← IO.getStdout).flush
  log event := do
    if event.isShown (← read) then
      IO.eprintln (String.ofList event.logLine)

end SegmentAssembler

open SegmentAssembler in
/-- Run the command on the words of its command line. -/
def main (arguments : List String) : IO UInt32 := do
  let request := Request.ofWords (arguments.map String.toList)
  if request = .invalid then
    IO.eprint (String.ofList helpText)
  (perform request : Terminal UInt32).run request.level
