import WordMachine.Proofs.Machine.Action

/-!
# Effects of instructions

Apart from devices, an instruction works on the **core** of the machine: memory, registers and
stack. `Instruction.effect` says what an instruction amounts to in a given core, with no devices in
sight: it cannot be carried out, it changes the core, or it asks a device for one byte to be written
or read. `Machine.perform` carries out an effect.

To execute an instruction is to announce it and then to perform its effect (`execute_apply`).
-/

namespace WordMachine

open Text

/-! ### The core -/

/-- What instructions work on, apart from devices. -/
structure Core where
  memory : Memory
  registers : RegisterFile
  stack : Stack

namespace Core

/-- The value of an operand. -/
def value (core : Core) (operand : Operand) : Word := core.registers.value operand

/-- The core with a value in a register. -/
def setRegister (core : Core) (target : Register) (value : Word) : Core :=
  { core with registers := core.registers.set target.val value }

end Core

namespace Machine

/-- The core of a machine. -/
def core (m : Machine) : Core := ⟨m.memory, m.registers, m.stack⟩

/-- The machine with another core. -/
def withCore (m : Machine) (core : Core) : Machine :=
  { m with memory := core.memory, registers := core.registers, stack := core.stack }

@[simp] theorem withCore_core (m : Machine) : m.withCore m.core = m := rfl

theorem AgreeButTrace.core_eq {m m' : Machine} (h : AgreeButTrace m m') : m.core = m'.core := by
  rw [core, core, h.memory, h.registers, h.stack]

end Machine

/-! ### Effects -/

/-- What an instruction amounts to. -/
inductive Effect
  /-- The instruction cannot be carried out. -/
  | fault (error : MachineError)
  /-- The core becomes `core`, and the run goes on as `control` says. -/
  | compute (core : Core) (control : Control)
  /-- A byte is to be written. -/
  | emit (b : UInt8)
  /-- A byte is to be read into a register. -/
  | receive (target : Register)

namespace Instruction

/-- What an instruction at `pc`, which is followed by `next`, amounts to. All operands are valued in
the core as it is before. -/
def effect (core : Core) (pc next : Word) : Instruction → Effect
  | halt => .compute core ⟨some .instruction, next⟩
  | set target source => .compute (core.setRegister target (core.value source)) ⟨none, next⟩
  | push source => .compute { core with stack := core.value source :: core.stack } ⟨none, next⟩
  | pop target =>
    match core.stack with
    | [] => .fault (.stackUnderflow pc)
    | top :: rest => .compute ({ core with stack := rest }.setRegister target top) ⟨none, next⟩
  | binary op target left right =>
    match op.eval? (core.value left) (core.value right) with
    | some result => .compute (core.setRegister target result) ⟨none, next⟩
    | none => .fault (.divisionByZero pc)
  | jump destination => .compute core ⟨none, core.value destination⟩
  | branch nonzero condition destination =>
    .compute core
      ⟨none, if (core.value condition != 0) = nonzero then core.value destination else next⟩
  | not target source =>
    .compute (core.setRegister target (core.value source).complement) ⟨none, next⟩
  | load target address =>
    match core.memory.read (core.value address) with
    | .ok word => .compute (core.setRegister target word) ⟨none, next⟩
    | .error e => .fault (.addressOutOfRange pc e.address)
  | store address source =>
    match core.memory.write (core.value address) (core.value source) with
    | .ok memory => .compute { core with memory := memory } ⟨none, next⟩
    | .error e => .fault (.addressOutOfRange pc e.address)
  | call destination =>
    .compute { core with stack := next :: core.stack } ⟨none, core.value destination⟩
  | ret =>
    match core.stack with
    | [] => .compute core ⟨some .emptyReturn, next⟩
    | top :: rest => .compute { core with stack := rest } ⟨none, top⟩
  | output source => .emit (core.value source).toUInt8
  | input target => .receive target
  | noop => .compute core ⟨none, next⟩

/-- What an instruction says in a trace before it takes effect. -/
def remark? (core : Core) : Instruction → Option String
  | store address source =>
    some ("writing " ++ (core.value source).text ++ " to " ++ (core.value address).text)
  | output source =>
    let byte := (core.value source).toUInt8
    some ("=== out: " ++ quotedByte byte ++ " (" ++ decimal byte.toNat ++ ") ===")
  | _ => none

end Instruction

namespace Machine

/-- Traces a remark, if there is one. -/
def announce : Option String → Action Unit
  | some line => trace fun _ => line
  | none => return ()

/-- Carries out an effect of the instruction at `pc`, which is followed by `next`. -/
def perform (pc next : Word) : Effect → Action Control
  | .fault error => throw error
  | .compute core control => do
    modify (·.withCore core)
    return control
  | .emit b => do
    writeByte b
    return ⟨none, next⟩
  | .receive target => do
    flush
    setRegister target (← readByte pc).toUInt16
    return ⟨none, next⟩

theorem quiet_announce (remark : Option String) : (announce remark).Quiet := by
  cases remark with
  | none => exact .pure ()
  | some line => exact quiet_trace fun _ => line

theorem announce_of_untraced {m : Machine} (h : m.tracer = none) (remark : Option String) :
    announce remark m = .ok () m := by
  cases remark with
  | none => rfl
  | some line => exact trace_of_untraced h fun _ => line

theorem perform_compute (pc next : Word) (core : Core) (control : Control) (m : Machine) :
    perform pc next (.compute core control) m = .ok control (m.withCore core) := rfl

private theorem execute_store (address source : Operand) (pc next : Word) (m : Machine) :
    execute (.store address source) pc next m =
      (do announce ((Instruction.store address source).remark? m.core)
          perform pc next ((Instruction.store address source).effect m.core pc next)) m := by
  have hremark : (Instruction.store address source).remark? m.core = some ("writing " ++
    (m.registers.value source).text ++ " to " ++ (m.registers.value address).text) := rfl
  rw [hremark, Action.bind_apply]
  simp only [execute, Action.bind_apply, Action.get_apply, announce]
  cases h : trace (fun _ => "writing " ++ (m.registers.value source).text ++ " to " ++
      (m.registers.value address).text) m with
  | error e m₁ => rfl
  | ok a m₁ =>
    -- The memory is looked at after the remark, which has left it alone.
    have hagree := ((quiet_trace _).of_ok h).symm
    by_cases hholds : Memory.Holds (m.registers.value address) <;>
      simp [Instruction.effect, Memory.write, Core.value, perform, core, withCore, hholds,
        hagree.memory, hagree.registers, hagree.stack]

/-- To execute an instruction is to announce it and then to perform its effect. -/
theorem execute_apply (i : Instruction) (pc next : Word) (m : Machine) :
    execute i pc next m =
      (do announce (i.remark? m.core); perform pc next (i.effect m.core pc next)) m := by
  cases i with
  | pop target =>
    cases h : m.stack with
    | nil =>
      simp [execute, Instruction.remark?, Instruction.effect, announce, perform, pop?, core, h]
    | cons top rest =>
      simp [execute, Instruction.remark?, Instruction.effect, announce, perform, pop?, setRegister,
        core, withCore, Core.setRegister, h]
  | ret =>
    cases h : m.stack with
    | nil =>
      have heffect : Instruction.ret.effect m.core pc next =
          .compute m.core ⟨some .emptyReturn, next⟩ := by simp [Instruction.effect, core, h]
      simp [execute, Instruction.remark?, announce, pop?, heffect, perform_compute, h]
    | cons top rest =>
      simp [execute, Instruction.remark?, Instruction.effect, announce, perform, pop?, core,
        withCore, h]
  | binary op target left right =>
    cases h : op.eval? (m.registers.value left) (m.registers.value right) <;>
      simp [execute, Instruction.remark?, Instruction.effect, announce, perform, setRegister, core,
        withCore, Core.setRegister, Core.value, h]
  | load target address =>
    cases h : m.memory.read (m.registers.value address) <;>
      simp [execute, Instruction.remark?, Instruction.effect, announce, perform, setRegister, core,
        withCore, Core.setRegister, Core.value, h]
  | store address source => exact execute_store address source pc next m
  -- The others do the same on both sides, step by step.
  | halt => rfl
  | set => rfl
  | push => rfl
  | jump => rfl
  | branch nonzero condition destination => rfl
  | not => rfl
  | call => rfl
  | output => rfl
  | input => rfl
  | noop => rfl

end Machine

end WordMachine
