import WordMachine.Command.Session

/-!
# The program

Reads the files that a command line names, lets a session carry it out, and puts out what the
session leaves behind. At a terminal the input is read line by line: whenever the program has used
up what was typed, it is run again on that and the next line. A run depends on its input only as
far as it has read it, so each run repeats the output of the one before, and only what is new is
shown.
-/

namespace WordMachine.Command

open Text

/-- How many steps a program may take. -/
def stepLimit : Nat := 1000000000000000000

/-- Everything that a stream still holds. -/
partial def readToEnd (stream : IO.FS.Stream) (found : ByteArray) : IO ByteArray := do
  let chunk ← stream.read 65536
  if chunk.isEmpty then return found else readToEnd stream (found ++ chunk)

/-- The folder of the files at the given paths that can be read. The system follows the paths, so
each path counts as one name. -/
def readFiles (paths : List String) : IO Folder := do
  let mut found := []
  for path in paths do
    try
      let bytes ← IO.FS.readBinFile path
      found := ([path], bytes.data.toList) :: found
    catch _ => pure ()
  return ⟨found, fun path => .file [path]⟩

/-- Puts out what a session leaves behind, except for the first `shown` bytes of its output. -/
def putOut (before : Folder) (names : List String) (shown : Nat) (outcome : Session.Outcome) :
    IO UInt32 := do
  let output ← IO.getStdout
  output.write ⟨(outcome.output.drop shown).toArray⟩
  output.flush
  IO.eprint outcome.status
  for name in names do
    match outcome.folder.read? name with
    | some bytes =>
      if before.read? name ≠ some bytes then IO.FS.writeBinFile name ⟨bytes.toArray⟩
    | none => pure ()
  match outcome.failure with
  | some failure => IO.eprintln ("Error: " ++ failure.message)
  | none => pure ()
  return outcome.exitCode.toUInt32

/-- Whether a session failed only because its input ended. -/
def isStarved (outcome : Session.Outcome) : Bool :=
  match outcome.failure with
  | some (.machine (.inputExhausted _)) => true
  | _ => false

/-- Runs a session on what was typed so far, and again with the next line as long as there is
one. -/
partial def converse (stream : IO.FS.Stream) (session : List UInt8 → Session.Outcome)
    (typed : ByteArray) (shown : Nat) : IO (Nat × Session.Outcome) := do
  let outcome := session typed.data.toList
  if isStarved outcome then
    let output ← IO.getStdout
    output.write ⟨(outcome.output.drop shown).toArray⟩
    output.flush
    let line ← stream.getLine
    if line.isEmpty then return (outcome.output.length, outcome)
    else converse stream session (typed ++ line.toUTF8) outcome.output.length
  else return (shown, outcome)

/-- Carries out a command line. -/
def perform (arguments : List String) : IO UInt32 := do
  let invocation := (Invocation.ofList arguments).toOption
  let folder ← readFiles (invocation.elim [] Invocation.filesRead)
  let tracing := isSwitchedOn (← IO.getEnv tracingVariable)
  let dumpsRegisters := isSwitchedOn (← IO.getEnv registersVariable)
  let stream ← IO.getStdin
  let session (typed : List UInt8) : Session.Outcome :=
    Session.respond ⟨folder, .ofBytes typed, tracing, dumpsRegisters, false⟩ stepLimit arguments
  let (shown, outcome) ←
    match invocation with
    | some (.run _) => do
      if ← stream.isTty then converse stream session .empty 0
      else pure (0, session (← readToEnd stream .empty).data.toList)
    | _ => pure (0, session [])
  putOut folder (invocation.elim [] Invocation.filesWritten) shown outcome

end WordMachine.Command

/-- Carries out the command line of the process. -/
def main (arguments : List String) : IO UInt32 := WordMachine.Command.perform arguments
