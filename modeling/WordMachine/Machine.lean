import WordMachine.Device
import WordMachine.Instruction
import WordMachine.Memory
import WordMachine.Registers
import WordMachine.Terminal

/-!
# The machine

The state of a machine is its memory, registers, stack and program counter, together with the
devices it is attached to and a **journal** of its dealings with them in chronological order. What
was written, how often the output was flushed and what was traced are read off the journal.
-/

namespace WordMachine

open Text

/-- Where input comes from. -/
inductive Input
  /-- Bytes from a file or pipe. -/
  | stream (stream : InputStream)
  /-- Keys that are pressed while the machine waits. -/
  | terminal (terminal : Terminal)

namespace Input

/-- Input that holds the given bytes and then ends. -/
def ofBytes (bytes : List UInt8) : Input := .stream { unread := bytes }

/-- The answer to a request for a byte. -/
inductive Answer
  | byte (b : UInt8)
  | ended
  | failed
  | interrupted
  deriving DecidableEq, Repr

/-- The answer to a request, the keys taken for it, and the input after it. -/
structure Reply where
  answer : Answer
  pressed : List Key
  rest : Input

/-- Requests one byte. -/
def request : Input → Reply
  | .stream s =>
    let later := { s with requested := s.requested + 1 }
    if s.honours s.requested then
      match s.unread with
      | [] => ⟨.ended, [], .stream later⟩
      | b :: unread => ⟨.byte b, [], .stream { later with unread := unread }⟩
    else ⟨.failed, [], .stream later⟩
  | .terminal t =>
    let reading := t.read 1
    let answer : Answer :=
      match reading.answer with
      | .bytes (b :: _) => .byte b
      | .interrupted => .interrupted
      | _ => .ended
    ⟨answer, reading.pressed, .terminal reading.rest⟩

/-- The bytes that are still to be read. -/
def unread : Input → List UInt8
  | .stream s => s.unread
  | .terminal t => t.unread

end Input

/-- One dealing of the machine with its surroundings. -/
inductive Event
  /-- A byte was written. -/
  | wrote (b : UInt8)
  /-- A flush was tried, and it succeeded or failed. -/
  | flushed (succeeded : Bool)
  /-- A byte of input was requested. -/
  | requested
  /-- A key was taken from the terminal. -/
  | pressed (key : Key)
  /-- A byte of input was received. -/
  | received (b : UInt8)
  /-- A line was traced. -/
  | traced (line : String)
  deriving DecidableEq, Repr

/-- Where traces go, and what they show. The switch for tracing is shared with others, who may flip
it between any two polls of the machine. -/
structure Tracer where
  /-- Which of the lines offered are taken. -/
  takes : Reliability := .always
  /-- How many lines have been offered. -/
  offered : Nat := 0
  /-- Whether the registers are shown after every instruction. -/
  dumpsRegisters : Bool := false
  /-- Before which polls, counted from zero, others flip the switch. -/
  flips : Nat → Bool := fun _ => false
  /-- How often the machine has polled the switch. -/
  polls : Nat := 0

/-- The state of a machine. -/
structure Machine where
  memory : Memory
  registers : RegisterFile := .zero
  stack : Stack := []
  /-- The address of the next instruction. -/
  pc : Word := 0
  input : Input := .ofBytes []
  output : Output := {}
  /-- The run stops after the instruction at this address. -/
  haltAt : Option Word := none
  tracer : Option Tracer := none
  /-- Whether tracing is switched on. -/
  tracing : Bool := false
  /-- The dealings with the surroundings, in chronological order. -/
  journal : Array Event := #[]

/-- Why a machine cannot go on. -/
inductive MachineError
  /-- The words at `pc` are no instruction. -/
  | badInstruction (pc : Word) (error : DecodeError)
  | addressOutOfRange (pc address : Word)
  | stackUnderflow (pc : Word)
  | divisionByZero (pc : Word)
  | inputExhausted (pc : Word)
  | device (error : DeviceError)
  /-- The user asked the program to end. -/
  | interrupted (pc : Word)
  deriving DecidableEq, Repr

/-- The wording of a machine error. -/
def MachineError.message : MachineError → String
  | badInstruction pc error => "Bad instruction at " ++ pc.text ++ ": " ++ error.message
  | addressOutOfRange pc address =>
    "Address " ++ address.text ++ " is outside of memory (at " ++ pc.text ++ ")"
  | stackUnderflow pc => "Pop from empty stack at " ++ pc.text
  | divisionByZero pc => "Modulo by zero at " ++ pc.text
  | inputExhausted pc => "Input ended while reading at " ++ pc.text
  | device error => "I/O failure: " ++ error.message
  | interrupted pc => "Interrupted while reading at " ++ pc.text

/-- Why a machine halts. -/
inductive HaltReason
  /-- The halt instruction. -/
  | instruction
  /-- A return with an empty stack. -/
  | emptyReturn
  /-- The requested address was executed. -/
  | breakpoint
  deriving DecidableEq, Repr

/-- Where and why a machine halted. -/
structure Halt where
  pc : Word
  reason : HaltReason
  deriving DecidableEq, Repr

/-- The wording of a halt. -/
def Halt.text (halt : Halt) : String :=
  match halt.reason with
  | .instruction => "hlt requested at " ++ halt.pc.text
  | .emptyReturn => "ret with empty stack at " ++ halt.pc.text
  | .breakpoint => "hlt requested by flag at " ++ halt.pc.text

/-- What comes after an instruction. -/
structure Control where
  /-- Set when the machine halts. -/
  halt : Option HaltReason
  /-- The address of the next instruction. -/
  next : Word
  deriving DecidableEq, Repr

namespace Machine

/-- A machine with a program in memory and everything else at rest. -/
def ofImage (image : Image) : Machine := { memory := .ofImage image }

/-- The machine with tracing switched over. -/
def toggled (m : Machine) : Machine := { m with tracing := !m.tracing }

end Machine

end WordMachine
