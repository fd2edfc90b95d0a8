import WordMachine.Annotation.File
import WordMachine.Command.Folder
import WordMachine.Command.Invocation
import WordMachine.Listing
import WordMachine.Machine.Run
import WordMachine.Machine.SharedStream
import WordMachine.Memory.Override
import WordMachine.Registers.Assignment
import WordMachine.Status
import WordMachine.Symbol.File

/-!
# Carrying out commands

A session starts with a folder of files and an input, and ends with an exit code, the bytes written
to the two output streams, and the folder as it is then. `Session.respond` carries out a whole
command line. The failure of a command is kept apart from what went to the status stream before it.
-/

namespace WordMachine.Command

open Text

/-! ### Surroundings -/

/-- What a session finds around it. -/
structure Surroundings where
  folder : Folder
  input : Input
  /-- Whether instructions are traced from the start. -/
  tracing : Bool
  /-- Whether registers are shown after traced instructions. -/
  dumpsRegisters : Bool
  /-- Whether status output is coloured. -/
  coloured : Bool

/-- Whether a variable of the environment switches something on. -/
def isSwitchedOn (value : Option String) : Bool := value = some "1"

/-- The variable that switches tracing on. -/
def tracingVariable : String := "SYNACOR_TRACE"

/-- The variable that shows registers in traces. -/
def registersVariable : String := "SYNACOR_DUMP_REG"

/-! ### Failures -/

/-- Why a command fails. -/
inductive Failure
  | cannotRead (path : String)
  | cannotWrite (path : String)
  /-- The file is not a text. -/
  | notText (path : String)
  /-- A text file has a fault. -/
  | text (diagnostic : Diagnostic)
  | image (error : ImageError)
  | override (error : OverrideError)
  | assignment (error : AssignmentError)
  | location (error : LocationError)
  | machine (error : MachineError)
  | listing (error : ListingError)
  /-- The program has not halted within the steps given to it. -/
  | unfinished
  deriving DecidableEq, Repr

/-- The wording of a failure. -/
def Failure.message : Failure → String
  | cannotRead path => "Cannot read " ++ path
  | cannotWrite path => "Cannot write " ++ path
  | notText path => "Not a text file: " ++ path
  | text diagnostic => diagnostic.message
  | image error => error.message
  | override error => error.message
  | assignment error => error.message
  | location error => error.message
  | machine error => error.message
  | listing error => error.message
  | unfinished => "The program has not halted"

/-! ### Sessions -/

/-- The state of a session. -/
structure Session where
  folder : Folder
  /-- What is left of the standard input. -/
  input : Input
  /-- The bytes written to the standard output. -/
  output : List UInt8 := []
  /-- The text written to the status stream. -/
  status : String := ""

/-- An action of a session, which may fail. -/
abbrev Activity := EStateM Failure Session

namespace Session

/-- Goes on with a value or fails. -/
def orFail {ε α : Type} (failure : ε → Failure) : Except ε α → Activity α
  | .ok value => return value
  | .error e => throw (failure e)

/-- Writes to the standard output. -/
def print (bytes : List UInt8) : Activity Unit :=
  modify fun s => { s with output := s.output ++ bytes }

/-- Writes to the status stream. -/
def report (text : String) : Activity Unit :=
  modify fun s => { s with status := s.status ++ text }

/-- Where a path leads. -/
def placeOf (path : String) : Activity Place := return (← get).folder.leadsTo path

/-- The bytes of a file. The file that stands for the standard input has the bytes that were not
read before. -/
def readFile (path : String) : Activity (List UInt8) := do
  match ← placeOf path, (← get).input with
  | .special .standardInput, .stream stream =>
    modify fun s => { s with input := .ofBytes [] }
    return stream.unread
  | _, _ =>
    match (← get).folder.read? path with
    | some bytes => return bytes
    | none => throw (.cannotRead path)

/-- The text of a file. -/
def readText (path : String) : Activity (List Char) := do
  match text? (← readFile path) with
  | some text => return text
  | none => throw (.notText path)

/-- Writes a file, which may stand for the standard output or the status stream. -/
def writeFile (path : String) (bytes : List UInt8) : Activity Unit := do
  match ← placeOf path with
  | .special .standardOutput => print bytes
  | .special .standardError => report (String.ofList (lossyText bytes))
  | _ =>
    match (← get).folder.write? path bytes with
    | some folder => modify fun s => { s with folder := folder }
    | none => throw (.cannotWrite path)

/-- The symbols of a file, or none at all. -/
def readSymbols : Option String → Activity SymbolTable
  | none => return .empty
  | some path => do
    let text ← readText path
    orFail (fun e => .text (SymbolTable.diagnostic path text e)) (SymbolTable.ofText text)

/-- The annotations of a file, or none at all. -/
def readAnnotations (symbols : SymbolTable) : Option String → Activity Annotations
  | none => return .empty
  | some path => do
    let text ← readText path
    orFail (fun e => .text (Annotations.diagnostic path text e)) (Annotations.ofText symbols text)

/-- The image in a file. -/
def readImage (path : String) : Activity Image := do
  orFail .image (Image.ofBytes (← readFile path).toArray)

/-- The address of a location, if one is given. -/
def resolve? (symbols : SymbolTable) : Option String → Activity (Option Word)
  | none => return none
  | some location => return some (← orFail .location (symbols.resolve location.toList))

/-! ### Running -/

/-- The memory of an image with overrides. -/
def loadMemory (image : Image) : Option String → Activity Memory
  | none => return .ofImage image
  | some list => do
    let (memory, result) := (Memory.ofImage image).override list.toList
    orFail .override result
    return memory

/-- The first contents of the registers. -/
def loadRegisters : Option String → Activity RegisterFile
  | none => return .zero
  | some list => orFail .assignment (RegisterFile.ofAssignments list.toList)

/-- What a trace line shows on the status stream. Unless it goes elsewhere it shows there as trace
text, and if it goes to the file that stands for this stream, it shows as it is. -/
def lineShown (style : Status.Style) (line : String) : Option Place → String
  | none => Status.traceText style (line ++ "\n").toList
  | some (.special .standardError) => line ++ "\n"
  | some _ => ""

/-- Adds what an event shows on the status stream: trace lines, and each switch of tracing, whose
state is kept along with the text. -/
def showEvent (style : Status.Style) (goal : Option Place) (shown : Bool × String) :
    Event → Bool × String
  | .traced line => (shown.1, shown.2 ++ lineShown style line goal)
  | .pressed .toggleTrace => (!shown.1, shown.2 ++ Status.tracingMessage style (!shown.1))
  | _ => shown

/-- What the events of a run show on the status stream. The trace goes to `goal`, if that is a
place at all. -/
def eventsShown (style : Status.Style) (goal : Option Place) (tracing : Bool)
    (journal : Array Event) : String :=
  (journal.foldl (showEvent style goal) (tracing, "")).2

/-- What a run writes to the standard output if its trace goes to `goal`. -/
def outputShown (machine : Machine) (goal : Option Place) : List UInt8 :=
  if goal = some (.special .standardOutput) then machine.shared else machine.screen

/-- Writes the trace of a run that is over to its file, if it has one. -/
def saveTrace (machine : Machine) (path : String) : Activity Unit := do
  match ← placeOf path with
  | .file _ => writeFile path (utf8 machine.traceText)
  | _ => return ()

/-- How the status output of `run` looks. -/
def styleOf (surroundings : Surroundings) (options : RunOptions) : Status.Style :=
  ⟨surroundings.coloured, options.minimal⟩

/-- Loads a program. Gives its symbols, the machine that is to run it, and the place of the trace if
that is to go to a file. -/
def load (surroundings : Surroundings) (options : RunOptions) :
    Activity (SymbolTable × Machine × Option Place) := do
  let symbols ← readSymbols options.symbols
  report (Status.fileMessage (styleOf surroundings options) .green "Loading" options.image)
  let image ← readImage options.image
  let memory ← loadMemory image options.overrides
  let registers ← loadRegisters options.registers
  let start ← resolve? symbols options.start
  let haltAt ← resolve? symbols options.haltAt
  options.traceFile.forM fun path => writeFile path []
  let goal ← options.traceFile.mapM placeOf
  let machine : Machine :=
    { memory, registers, haltAt
      tracing := options.verbose || surroundings.tracing
      pc := start.getD 0
      input := (← get).input
      tracer := some {
        takes := if goal = some (.special .full) then .never else .always
        dumpsRegisters := options.dumpsRegisters || surroundings.dumpsRegisters } }
  return (symbols, machine, goal)

/-- Reports how the run of a machine has ended, and saves its memory if that was asked for and the
program has halted. -/
def conclude (surroundings : Surroundings) (options : RunOptions) (machine : Machine) :
    Option (Except MachineError Halt) → Activity Unit
  | none => throw .unfinished
  | some (.error (.interrupted _)) => print (utf8 "\n")
  | some (.error e) => do
    report (Status.message (styleOf surroundings options) .red "Failed"
      ("stopped at " ++ machine.pc.text))
    throw (.machine e)
  | some (.ok halt) => do
    report (Status.message (styleOf surroundings options) .cyan "Halted" halt.text)
    options.memoryDump.forM fun path => do
      writeFile path machine.memory.toBytes
      report (Status.fileMessage (styleOf surroundings options) .green "Saved" path)

/-- Carries out `run`. The program may take at most `fuel` steps. -/
def run (surroundings : Surroundings) (fuel : Nat) (options : RunOptions) : Activity Unit := do
  let style := styleOf surroundings options
  let (symbols, machine, goal) ← load surroundings options
  report (Status.message style .green "Running" "loaded image")
  let (last, result) := machine.run symbols fuel
  print (outputShown last goal)
  report (eventsShown style goal machine.tracing last.journal)
  options.traceFile.forM (saveTrace last)
  conclude surroundings options last result

/-! ### Listing and reading strings -/

/-- Carries out `dis`. -/
def list (options : ListOptions) : Activity Unit := do
  let symbols ← readSymbols options.symbols
  let notes ← readAnnotations symbols options.annotations
  let image ← readImage options.image
  let start ← resolve? symbols options.start
  let listing := Listing.ofWords image.words notes (start.getD 0) options.limit
  let (result, written) := listing.write ⟨symbols, notes, options.full⟩ {}
  print written.toList
  orFail .listing result

/-- Carries out `read-string`. -/
def readString (options : StringOptions) : Activity Unit := do
  let symbols ← readSymbols options.symbols
  let image ← readImage options.image
  let address ← orFail .location (symbols.resolve options.location.toList)
  let characters ← orFail .image (image.stringAt address options.indirect)
  if options.raw then print (stringBytes characters)
  else print (utf8 (escapedString characters ++ "\n"))

/-! ### Whole command lines -/

/-- The name and the version of the program. -/
def versionText : String := "synacor 0.1.0\n"

/-- A short help text. -/
def helpText : String :=
  "Virtual machine and disassembler for word images\n\n" ++
  "Usage: run [OPTIONS] <NAME>\n       dis [OPTIONS] <NAME>\n" ++
  "       read-string [OPTIONS] <NAME> <LOCATION>\n"

/-- Carries out a command. -/
def carryOut (surroundings : Surroundings) (fuel : Nat) : Invocation → Activity Unit
  | .run options => run surroundings fuel options
  | .list options => list options
  | .readString options => readString options
  | .version => print (utf8 versionText)
  | .help => print (utf8 helpText)

/-- What a command line leaves behind. -/
structure Outcome where
  exitCode : Nat
  /-- The bytes written to the standard output. -/
  output : List UInt8
  /-- The text written to the status stream. -/
  status : String
  /-- What went wrong in a command that was understood. -/
  failure : Option Failure := none
  folder : Folder

/-- Carries out a command line. The exit code is 2 for a command line that cannot be understood and
1 for a command that fails. -/
def respond (surroundings : Surroundings) (fuel : Nat) (arguments : List String) : Outcome :=
  match Invocation.ofList arguments with
  | .error e =>
    { exitCode := 2, output := [], status := e.message ++ "\n", folder := surroundings.folder }
  | .ok invocation =>
    let session : Session := { folder := surroundings.folder, input := surroundings.input }
    match carryOut surroundings fuel invocation session with
    | .ok () s => ⟨0, s.output, s.status, none, s.folder⟩
    | .error e s => ⟨1, s.output, s.status, some e, s.folder⟩

end Session

end WordMachine.Command
