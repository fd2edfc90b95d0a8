import WordMachine.Command.Arguments

/-!
# Commands

There are three commands: `run` executes an image, `dis` lists it, and `read-string` prints a string
that it holds. `Invocation.ofList` reads a command line.
-/

namespace WordMachine.Command

/-- Executes an image. -/
structure RunOptions where
  image : String
  symbols : Option String
  start : Option String
  haltAt : Option String
  /-- The first contents of registers. -/
  registers : Option String
  /-- The words of memory to replace. -/
  overrides : Option String
  /-- The file for the final memory. -/
  memoryDump : Option String
  verbose : Bool
  traceFile : Option String
  dumpsRegisters : Bool
  minimal : Bool
  deriving DecidableEq, Repr

/-- Lists an image. -/
structure ListOptions where
  image : String
  /-- The number of words to list. -/
  limit : Option Nat
  start : Option String
  symbols : Option String
  annotations : Option String
  full : Bool
  deriving DecidableEq, Repr

/-- Prints a string of an image. -/
structure StringOptions where
  image : String
  location : String
  symbols : Option String
  indirect : Bool
  raw : Bool
  deriving DecidableEq, Repr

/-- A command line that was understood. -/
inductive Invocation
  | run (options : RunOptions)
  | list (options : ListOptions)
  | readString (options : StringOptions)
  | version
  | help
  deriving DecidableEq, Repr

/-- The arguments of `run`. -/
def RunOptions.grammar : Grammar where
  flags := [
    { long := "symtab", value := some .path },
    { long := "start", value := some .text },
    { long := "halt-at", value := some .text },
    { long := "init-reg", value := some .text },
    { long := "override-ram", value := some .text },
    { long := "ram-dump", value := some .path },
    { long := "verbose", short := some 'v' },
    { long := "trace-file", value := some .path },
    { long := "dump-reg" },
    { long := "minimal", short := some 'm' }]
  operands := [.path]

/-- The arguments of `dis`. -/
def ListOptions.grammar : Grammar where
  flags := [
    { long := "len", short := some 'l', value := some .count },
    { long := "start", value := some .text },
    { long := "symtab", value := some .path },
    { long := "annotations", value := some .path },
    { long := "full", short := some 'f' }]
  operands := [.path]

/-- The arguments of `read-string`. -/
def StringOptions.grammar : Grammar where
  flags := [
    { long := "symtab", value := some .path },
    { long := "indirect", short := some 'i' },
    { long := "raw", short := some 'r' }]
  operands := [.path, .text]

/-- Reads the arguments of `run`. -/
def RunOptions.ofArguments (given : Arguments) : RunOptions where
  image := given.operands.getD 0 ""
  symbols := given.value? "symtab"
  start := given.value? "start"
  haltAt := given.value? "halt-at"
  registers := given.value? "init-reg"
  overrides := given.value? "override-ram"
  memoryDump := given.value? "ram-dump"
  verbose := given.has "verbose"
  traceFile := given.value? "trace-file"
  dumpsRegisters := given.has "dump-reg"
  minimal := given.has "minimal"

/-- Reads the arguments of `dis`. -/
def ListOptions.ofArguments (given : Arguments) : ListOptions where
  image := given.operands.getD 0 ""
  limit := (given.value? "len").bind count?
  start := given.value? "start"
  symbols := given.value? "symtab"
  annotations := given.value? "annotations"
  full := given.has "full"

/-- Reads the arguments of `read-string`. -/
def StringOptions.ofArguments (given : Arguments) : StringOptions where
  image := given.operands.getD 0 ""
  location := given.operands.getD 1 ""
  symbols := given.value? "symtab"
  indirect := given.has "indirect"
  raw := given.has "raw"

namespace Invocation

/-- Reads the arguments of a command and makes an invocation of them. -/
def ofCommand (grammar : Grammar) (make : Arguments → Invocation) (arguments : List String) :
    Except UsageError Invocation :=
  match Arguments.ofList grammar arguments with
  | .ok given => .ok (make given)
  | .error .helpRequested => .ok help
  | .error e => .error e

/-- What there is help on. -/
def topics : List String := ["run", "dis", "read-string", "help"]

/-- Reads the arguments of `help`: one topic at most. -/
def helpOn : List String → Except UsageError Invocation
  | [] => .ok help
  | topic :: others =>
    if topic ∈ topics then others.head?.elim (.ok help) (.error ∘ .unknownCommand)
    else .error (.unknownCommand topic)

/-- Reads a command line. -/
def ofList : List String → Except UsageError Invocation
  | [] => .error .missingCommand
  | "run" :: arguments => ofCommand RunOptions.grammar (run ∘ RunOptions.ofArguments) arguments
  | "dis" :: arguments => ofCommand ListOptions.grammar (list ∘ ListOptions.ofArguments) arguments
  | "read-string" :: arguments =>
    ofCommand StringOptions.grammar (readString ∘ StringOptions.ofArguments) arguments
  | "help" :: arguments => helpOn arguments
  | "--help" :: _ => .ok help
  | "--version" :: _ => .ok version
  | name :: _ =>
    match name.toList with
    | '-' :: 'V' :: _ => .ok version
    | '-' :: 'h' :: _ => .ok help
    | '-' :: _ => .error (.unknownOption name)
    | _ => .error (.unknownCommand name)

/-- The files that a command reads. -/
def filesRead : Invocation → List String
  | run options => options.image :: options.symbols.toList
  | list options => options.image :: (options.symbols.toList ++ options.annotations.toList)
  | readString options => options.image :: options.symbols.toList
  | version | help => []

/-- The files that a command may write. -/
def filesWritten : Invocation → List String
  | run options => options.traceFile.toList ++ options.memoryDump.toList
  | _ => []

end Invocation

end WordMachine.Command
