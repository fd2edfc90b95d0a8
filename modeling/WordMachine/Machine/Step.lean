import WordMachine.Arithmetic
import WordMachine.Instruction.Rendering
import WordMachine.Machine
import WordMachine.Text.Column

/-!
# Executing instructions

`Machine.execute` carries out one instruction and `Machine.step` fetches it first. Both act on a
machine and may fail; what was done before a failure stays done, and the program counter only moves
when an instruction succeeds without halting.

A step that is traced writes the instruction before it is carried out, and the registers afterwards
if they were asked for. Writes to memory and to the output announce themselves before they happen.
-/

namespace WordMachine

open Text

/-- An action of the machine, which may fail. -/
abbrev Action := EStateM MachineError Machine

namespace Machine

/-! ### Devices -/

/-- Notes an event in the journal. -/
def note (event : Event) : Action Unit :=
  modify fun m => { m with journal := m.journal.push event }

/-- Writes one byte. -/
def writeByte (b : UInt8) : Action Unit := do
  let (taken, output) := (← get).output.offer
  modify fun m => { m with output := output }
  if taken then note (.wrote b) else throw (.device .writeFailed)

/-- Flushes the output. -/
def flush : Action Unit := do
  let (succeeded, output) := (← get).output.flush
  modify fun m => { m with output := output }
  note (.flushed succeeded)
  if succeeded then return () else throw (.device .flushFailed)

/-- Requests one byte of input. Keys that are taken meanwhile may switch tracing. -/
def requestByte : Action Input.Answer := do
  note .requested
  let reply := (← get).input.request
  modify fun m =>
    { m with input := reply.rest, tracing := Terminal.tracingAfter m.tracing reply.pressed }
  reply.pressed.forM fun key => note (.pressed key)
  return reply.answer

/-- Reads one byte of input. -/
def readByte (pc : Word) : Action UInt8 := do
  match ← requestByte with
  | .byte b =>
    note (.received b)
    return b
  | .ended => throw (.inputExhausted pc)
  | .failed => throw (.device .readFailed)
  | .interrupted => throw (.interrupted pc)

/-- Polls the switch for tracing, which others may have flipped. Without a tracer there is no
tracing. -/
def pollSwitch : Action Bool := do
  let m ← get
  match m.tracer with
  | some tracer =>
    let tracing := m.tracing != tracer.flips tracer.polls
    set { m with tracing := tracing, tracer := some { tracer with polls := tracer.polls + 1 } }
    return tracing
  | none => return false

/-- Offers a line to the tracer, if there is one. -/
def offerLine (line : String) : Action Unit := do
  match (← get).tracer with
  | some tracer =>
    modify fun m => { m with tracer := some { tracer with offered := tracer.offered + 1 } }
    if tracer.takes tracer.offered then note (.traced line) else throw (.device .writeFailed)
  | none => return ()

/-- Writes a line about the machine to the trace, if tracing is on. -/
def trace (line : Machine → String) : Action Unit := do
  if ← pollSwitch then offerLine (line (← get)) else return ()

/-! ### Instructions -/

/-- Puts a value into a register. -/
def setRegister (target : Register) (value : Word) : Action Unit :=
  modify fun m => { m with registers := m.registers.set target.val value }

/-- Pushes a value. -/
def push (value : Word) : Action Unit :=
  modify fun m => { m with stack := value :: m.stack }

/-- Pops a value, if there is one. -/
def pop? : Action (Option Word) := do
  match (← get).stack with
  | [] => return none
  | top :: rest =>
    modify fun m => { m with stack := rest }
    return some top

/-- Carries out the instruction at `pc`, which is followed by `next`. -/
def execute (i : Instruction) (pc next : Word) : Action Control := do
  let value := (← get).registers.value
  match i with
  | .halt => return ⟨some .instruction, next⟩
  | .set target source =>
    setRegister target (value source)
    return ⟨none, next⟩
  | .push source =>
    push (value source)
    return ⟨none, next⟩
  | .pop target =>
    match ← pop? with
    | some top =>
      setRegister target top
      return ⟨none, next⟩
    | none => throw (.stackUnderflow pc)
  | .binary op target left right =>
    match op.eval? (value left) (value right) with
    | some result =>
      setRegister target result
      return ⟨none, next⟩
    | none => throw (.divisionByZero pc)
  | .jump destination => return ⟨none, value destination⟩
  | .branch nonzero condition destination =>
    return ⟨none, if (value condition != 0) = nonzero then value destination else next⟩
  | .not target source =>
    setRegister target (value source).complement
    return ⟨none, next⟩
  | .load target address =>
    match (← get).memory.read (value address) with
    | .ok word =>
      setRegister target word
      return ⟨none, next⟩
    | .error e => throw (.addressOutOfRange pc e.address)
  | .store address source =>
    trace fun _ => "writing " ++ (value source).text ++ " to " ++ (value address).text
    if Memory.Holds (value address) then
      modify fun m => { m with memory := m.memory.put (value address) (value source) }
      return ⟨none, next⟩
    else throw (.addressOutOfRange pc (value address))
  | .call destination =>
    push next
    return ⟨none, value destination⟩
  | .ret =>
    match ← pop? with
    | some top => return ⟨none, top⟩
    | none => return ⟨some .emptyReturn, next⟩
  | .output source =>
    let byte := (value source).toUInt8
    trace fun _ => "=== out: " ++ quotedByte byte ++ " (" ++ decimal byte.toNat ++ ") ==="
    writeByte byte
    return ⟨none, next⟩
  | .input target =>
    flush
    setRegister target (← readByte pc).toUInt16
    return ⟨none, next⟩
  | .noop => return ⟨none, next⟩

/-- The line that traces an instruction. -/
def instructionLine (symbols : SymbolTable) (pc : Word) (i : Instruction) : String :=
  alignRight 30 (symbols.addressName pc) ++ ": " ++ i.render symbols

/-- Traces the registers, if that was asked for. -/
def traceRegisters : Action Unit := do
  if ← pollSwitch then
    if (← get).tracer.any (·.dumpsRegisters) then offerLine (← get).registers.text else return ()
  else return ()

/-- Moves the program counter, unless the machine halts. -/
def proceed (control : Control) : Action Unit :=
  if control.halt.isNone then modify fun m => { m with pc := control.next } else return ()

/-- The instruction at the program counter and its length. -/
def fetch (m : Machine) : Except DecodeError (Instruction × Nat) :=
  Instruction.decode m.memory.words m.pc.toNat

/-- Fetches the instruction at the program counter, traces it and carries it out. -/
def carryOut (symbols : SymbolTable) : Action Control := do
  let pc := (← get).pc
  match (← get).fetch with
  | .error e => throw (.badInstruction pc e)
  | .ok (i, length) =>
    trace fun _ => instructionLine symbols pc i
    execute i pc (pc + UInt16.ofNat length)

/-- Carries out the instruction at the program counter and moves on. -/
def step (symbols : SymbolTable) : Action Control := do
  let control ← carryOut symbols
  traceRegisters
  proceed control
  return control

end Machine

end WordMachine
