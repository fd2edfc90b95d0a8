import WordMachine.Text.Numeral
import WordMachine.Text.Pieces

/-!
# Command-line arguments

A command takes **options** and **operands**. An option has a long name behind `--` and perhaps a
letter behind `-`; letters can be written together. The value of an option follows as the next
argument, behind `=`, or right behind the letter. No option may be repeated. After `--` everything
is an operand, and a single `-` always is one.

Arguments are scanned from left to right and the first fault counts.
-/

namespace WordMachine.Command

open Text

/-- What a value may be. -/
inductive ValueKind
  /-- Any text. -/
  | text
  /-- The path of a file, which is not empty. -/
  | path
  /-- A number below 2 to the 64. -/
  | count
  deriving DecidableEq, Repr

/-- The number that a value of kind `count` stands for. -/
def count? (value : String) : Option Nat := (decimal? value.toList).filter (· < UInt64.size)

/-- Whether a value is of a kind. -/
def ValueKind.accepts (kind : ValueKind) (value : String) : Bool :=
  match kind with
  | text => true
  | path => value ≠ ""
  | count => (count? value).isSome

/-- An option of a command. -/
structure Flag where
  long : String
  short : Option Char := none
  /-- What its value may be; an option without a kind takes no value. -/
  value : Option ValueKind := none
  deriving DecidableEq, Repr

/-- The arguments that a command takes. -/
structure Grammar where
  flags : List Flag
  operands : List ValueKind
  deriving DecidableEq, Repr

/-- What is wrong with the arguments of a command. -/
inductive UsageError
  | unknownOption (name : String)
  | repeatedOption (name : String)
  | missingValue (name : String)
  | unexpectedValue (name : String)
  | badValue (value : String)
  | unexpectedOperand (value : String)
  | missingOperand
  | unknownCommand (name : String)
  | missingCommand
  /-- Nothing is wrong: help was asked for. -/
  | helpRequested
  deriving DecidableEq, Repr

/-- The wording of a usage error. -/
def UsageError.message : UsageError → String
  | unknownOption name => "unexpected argument " ++ name
  | repeatedOption name => "the argument --" ++ name ++ " cannot be used multiple times"
  | missingValue name => "a value is required for --" ++ name
  | unexpectedValue name => "no value is expected for --" ++ name
  | badValue value => "invalid value " ++ value
  | unexpectedOperand value => "unexpected argument " ++ value
  | missingOperand => "required arguments were not provided"
  | unknownCommand name => "unrecognized subcommand " ++ name
  | missingCommand => "a subcommand is required"
  | helpRequested => "help requested"

/-- The arguments scanned so far. -/
structure Arguments where
  /-- The long names of the options given, with their values. -/
  options : List (String × Option String) := []
  operands : List String := []
  /-- An option whose value is to come. -/
  awaiting : Option Flag := none
  /-- Whether only operands can come. -/
  operandsOnly : Bool := false
  deriving DecidableEq, Repr

namespace Arguments

/-- Whether an option was given. -/
def has (arguments : Arguments) (long : String) : Bool :=
  arguments.options.any (·.1 = long)

/-- The value of an option, if it was given. -/
def value? (arguments : Arguments) (long : String) : Option String :=
  (arguments.options.find? (·.1 = long)).bind (·.2)

/-- Adds an option. -/
def addOption (arguments : Arguments) (flag : Flag) (value : Option String) :
    Except UsageError Arguments :=
  if arguments.has flag.long then .error (.repeatedOption flag.long)
  else .ok { arguments with options := arguments.options ++ [(flag.long, value)], awaiting := none }

/-- Adds an option with its value. -/
def addValue (arguments : Arguments) (flag : Flag) (kind : ValueKind) (value : String) :
    Except UsageError Arguments :=
  if kind.accepts value then arguments.addOption flag (some value) else .error (.badValue value)

/-- Adds an operand. -/
def addOperand (arguments : Arguments) (grammar : Grammar) (value : String) :
    Except UsageError Arguments :=
  match grammar.operands[arguments.operands.length]? with
  | none => .error (.unexpectedOperand value)
  | some kind =>
    if kind.accepts value then .ok { arguments with operands := arguments.operands ++ [value] }
    else .error (.badValue value)

/-- Scans an argument that starts with two hyphens. -/
def addLong (arguments : Arguments) (grammar : Grammar) (body : List Char) :
    Except UsageError Arguments :=
  let (name, attached) :=
    match cutAt? '=' body with
    | some (name, value) => (String.ofList name, some (String.ofList value))
    | none => (String.ofList body, none)
  match grammar.flags.find? (·.long = name), attached with
  | none, none => .error (if name = "help" then .helpRequested else .unknownOption name)
  | none, some _ => .error (.unknownOption name)
  | some flag, attached =>
    match flag.value, attached with
    | none, none => arguments.addOption flag none
    | none, some _ => .error (.unexpectedValue name)
    | some _, none => .ok { arguments with awaiting := some flag }
    | some kind, some value => arguments.addValue flag kind value

/-- Scans the letters of an argument that starts with one hyphen. -/
def addLetters (arguments : Arguments) (grammar : Grammar) :
    List Char → Except UsageError Arguments
  | [] => .ok arguments
  | letter :: rest =>
    match grammar.flags.find? (·.short = some letter) with
    | none => .error (if letter = 'h' then .helpRequested else .unknownOption letter.toString)
    | some flag =>
      match flag.value with
      | none => do
        let arguments ← arguments.addOption flag none
        arguments.addLetters grammar rest
      | some kind =>
        match rest with
        | [] => .ok { arguments with awaiting := some flag }
        | '=' :: value => arguments.addValue flag kind (String.ofList value)
        | value => arguments.addValue flag kind (String.ofList value)

/-- Scans one argument. -/
def scan (grammar : Grammar) (arguments : Arguments) (argument : String) :
    Except UsageError Arguments :=
  if arguments.operandsOnly then arguments.addOperand grammar argument
  else
    match arguments.awaiting with
    | some flag =>
      match flag.value, argument.toList with
      | some kind, ['-'] => arguments.addValue flag kind argument
      | _, '-' :: _ => .error (.missingValue flag.long)
      | some kind, _ => arguments.addValue flag kind argument
      | none, _ => .error (.unexpectedValue flag.long)
    | none =>
      match argument.toList with
      | ['-'] => arguments.addOperand grammar argument
      | ['-', '-'] => .ok { arguments with operandsOnly := true }
      | '-' :: '-' :: body => arguments.addLong grammar body
      | '-' :: letters => arguments.addLetters grammar letters
      | _ => arguments.addOperand grammar argument

/-- The arguments of a command; none may be missing. -/
def ofList (grammar : Grammar) (list : List String) : Except UsageError Arguments := do
  let arguments ← list.foldlM (scan grammar) {}
  match arguments.awaiting with
  | some flag => throw (.missingValue flag.long)
  | none =>
    if arguments.operands.length < grammar.operands.length then throw .missingOperand
    else return arguments

end Arguments

end WordMachine.Command
