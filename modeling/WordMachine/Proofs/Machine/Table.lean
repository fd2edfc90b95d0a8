import Mathlib.Logic.Function.Basic
import WordMachine.Proofs.Machine.Agreement

/-!
# The instruction table

The instruction table in natural numbers, with no words, devices or actions in sight. In each state
an instruction has a **transition** or is at fault (`Instruction.transition`). A transition says
what is taken off, what is given a value, what is written, and where the run goes on. All that it
does not mention stays as it is (`Snapshot.after`).

A **snapshot** is the state of a machine in natural numbers. It forgets nothing of the state
(`Machine.snapshot_eq_iff`).
-/

namespace WordMachine

/-- The state of a machine in natural numbers. -/
@[ext]
structure Snapshot where
  /-- The cells of memory, zero outside. -/
  cell : Nat → Nat
  register : Register → Nat
  /-- The stack, its top first. -/
  stack : List Nat
  pc : Nat
  /-- The bytes that are still to be read. -/
  unread : List Nat
  /-- The bytes written so far. -/
  written : List Nat

/-- What can be given a value. -/
inductive Recipient
  | register (r : Register)
  | cell (address : Nat)
  /-- A new top of the stack. -/
  | top

/-- What comes after an instruction. -/
inductive Sequel
  | goesOn (address : Nat)
  | halts (reason : HaltReason)

/-- What an instruction does in a state. At most one register, cell or top of the stack is given a
value. -/
structure Transition where
  /-- Whether the top of the stack is taken off. -/
  takesTop : Bool := false
  /-- Whether the first of the unread bytes is taken. -/
  takesByte : Bool := false
  /-- What is given a value, and the value. -/
  gives : Option (Recipient × Nat) := none
  /-- The byte that is written. -/
  writes : Option Nat := none
  sequel : Sequel

/-- Why an instruction has no transition in a state. -/
inductive Fault
  | stackUnderflow
  | divisionByZero
  | addressOutOfRange (address : Nat)
  /-- No byte is left to be read. -/
  | noInput

/-- The result of an operation on numbers, unless it is a remainder by zero. -/
def BinaryOp.onNumbers? (op : BinaryOp) (left right : Nat) : Option Nat :=
  match op with
  | equal => some (if left = right then 1 else 0)
  | greater => some (if right < left then 1 else 0)
  | add => some ((left + right) % 32768)
  | multiply => some (left * right % 32768)
  | modulo => if right = 0 then none else some (left % right)
  | and => some (left &&& right)
  | or => some (left ||| right)

namespace Snapshot

/-- The value of an operand: literals stand for themselves. -/
def value (s : Snapshot) : Operand → Nat
  | .literal value => value.toNat
  | .register r => s.register r

/-- The state with a value given to a recipient. -/
def give (s : Snapshot) (value : Nat) : Recipient → Snapshot
  | .register r => { s with register := Function.update s.register r value }
  | .cell address => { s with cell := Function.update s.cell address value }
  | .top => { s with stack := value :: s.stack }

/-- The state that a transition leads to. A halt leaves the program counter. -/
def after (s : Snapshot) (transition : Transition) : Snapshot :=
  let taken : Snapshot :=
    { s with
      stack := if transition.takesTop then s.stack.tail else s.stack
      unread := if transition.takesByte then s.unread.tail else s.unread
      written := s.written ++ transition.writes.toList
      pc := match transition.sequel with
        | .goesOn address => address
        | .halts _ => s.pc }
  match transition.gives with
  | some (recipient, value) => taken.give value recipient
  | none => taken

theorem after_goesOn (s : Snapshot) (takesTop : Bool) (address : Nat) :
    s.after { takesTop, sequel := .goesOn address } =
      { s with stack := if takesTop then s.stack.tail else s.stack, pc := address } := by
  simp [after]

theorem after_halts (s : Snapshot) (reason : HaltReason) :
    s.after { sequel := .halts reason } = s := by
  simp [after]

theorem after_gives (s : Snapshot) (takesTop takesByte : Bool) (recipient : Recipient)
    (value address : Nat) :
    s.after { takesTop, takesByte, gives := some (recipient, value), sequel := .goesOn address } =
      { s with
        stack := if takesTop then s.stack.tail else s.stack
        unread := if takesByte then s.unread.tail else s.unread
        pc := address }.give value recipient := by
  simp [after]

theorem after_writes (s : Snapshot) (b address : Nat) :
    s.after { writes := some b, sequel := .goesOn address } =
      { s with pc := address, written := s.written ++ [b] } := by
  simp [after]

/-- At most the recipient has been given a value: all other registers and cells hold what they held,
and a stack that was given nothing has at most lost its top. -/
structure DiffersAt (recipient : Option Recipient) (s s' : Snapshot) : Prop where
  register : ∀ r, recipient ≠ some (.register r) → s'.register r = s.register r
  cell : ∀ address, recipient ≠ some (.cell address) → s'.cell address = s.cell address
  stack : recipient ≠ some .top → s'.stack = s.stack ∨ s'.stack = s.stack.tail

theorem differsAt_after (s : Snapshot) (transition : Transition) :
    DiffersAt (transition.gives.map Prod.fst) s (s.after transition) := by
  have hstack : (if transition.takesTop then s.stack.tail else s.stack) = s.stack ∨
      (if transition.takesTop then s.stack.tail else s.stack) = s.stack.tail := by
    split
    · exact .inr rfl
    · exact .inl rfl
  unfold after
  cases transition.gives with
  | none => exact ⟨fun _ _ => rfl, fun _ _ => rfl, fun _ => hstack⟩
  | some gift =>
    obtain ⟨recipient, value⟩ := gift
    cases recipient with
    | register r =>
      refine ⟨fun r' hne => Function.update_of_ne ?_ _ _, fun _ _ => rfl, fun _ => hstack⟩
      rintro rfl
      exact hne rfl
    | cell address =>
      refine ⟨fun _ _ => rfl, fun address' hne => Function.update_of_ne ?_ _ _, fun _ => hstack⟩
      rintro rfl
      exact hne rfl
    | top => exact ⟨fun _ _ => rfl, fun _ _ => rfl, fun hne => absurd rfl hne⟩

end Snapshot

/-- The table: what an instruction does in a state. All operands are valued in that state. -/
def Instruction.transition (s : Snapshot) (i : Instruction) : Except Fault Transition :=
  let next := Sequel.goesOn (s.pc + i.length)
  match i with
  | halt => .ok { sequel := .halts .instruction }
  | set target source => .ok { gives := some (.register target, s.value source), sequel := next }
  | push source => .ok { gives := some (.top, s.value source), sequel := next }
  | pop target =>
    match s.stack with
    | [] => .error .stackUnderflow
    | top :: _ => .ok { takesTop := true, gives := some (.register target, top), sequel := next }
  | binary op target left right =>
    match op.onNumbers? (s.value left) (s.value right) with
    | none => .error .divisionByZero
    | some result => .ok { gives := some (.register target, result), sequel := next }
  | jump destination => .ok { sequel := .goesOn (s.value destination) }
  | branch nonzero condition destination =>
    .ok { sequel := if s.value condition ≠ 0 ↔ nonzero = true then .goesOn (s.value destination)
                    else next }
  | not target source =>
    .ok { gives := some (.register target, 32767 - s.value source % 32768), sequel := next }
  | load target address =>
    if s.value address < 32768 then
      .ok { gives := some (.register target, s.cell (s.value address)), sequel := next }
    else .error (.addressOutOfRange (s.value address))
  | store address source =>
    if s.value address < 32768 then
      .ok { gives := some (.cell (s.value address), s.value source), sequel := next }
    else .error (.addressOutOfRange (s.value address))
  | call destination =>
    .ok { gives := some (.top, s.pc + 2), sequel := .goesOn (s.value destination) }
  | ret =>
    match s.stack with
    | [] => .ok { sequel := .halts .emptyReturn }
    | top :: _ => .ok { takesTop := true, sequel := .goesOn top }
  | output source => .ok { writes := some (s.value source % 256), sequel := next }
  | input target =>
    match s.unread with
    | [] => .error .noInput
    | b :: _ => .ok { takesByte := true, gives := some (.register target, b), sequel := next }
  | noop => .ok { sequel := next }

/-- The reason for a halt, if there is one. -/
def Sequel.halt? : Sequel → Option HaltReason
  | goesOn _ => none
  | halts reason => some reason

/-- The fault that an error reports, with the address of the instruction. -/
def MachineError.fault? : MachineError → Option (Nat × Fault)
  | addressOutOfRange pc address => some (pc.toNat, .addressOutOfRange address.toNat)
  | stackUnderflow pc => some (pc.toNat, .stackUnderflow)
  | divisionByZero pc => some (pc.toNat, .divisionByZero)
  | _ => none

/-! ### Snapshots of machines -/

theorem Word.toNat_injective : Function.Injective UInt16.toNat := fun _ _ => UInt16.toNat_inj.mp

/-- Memories that hold the same words everywhere are the same. -/
theorem Memory.ext_of_words {memory memory' : Memory}
    (h : ∀ address : Nat, memory.words[address]?.getD 0 = memory'.words[address]?.getD 0) :
    memory = memory' := by
  obtain ⟨cells⟩ := memory
  obtain ⟨cells'⟩ := memory'
  refine congrArg Memory.mk (Vector.ext fun address hlt => ?_)
  simpa [words, hlt] using h address

namespace Machine

/-- The state of a machine in natural numbers. -/
def snapshot (m : Machine) : Snapshot where
  cell address := (m.memory.words[address]?.getD 0).toNat
  register r := (m.registers.get r.val).toNat
  stack := m.stack.map UInt16.toNat
  pc := m.pc.toNat
  unread := m.input.unread.map UInt8.toNat
  written := m.written.map UInt8.toNat

/-- A snapshot tells all about the state of a machine. -/
theorem snapshot_eq_iff {m m' : Machine} : m.snapshot = m'.snapshot ↔ m.SameState m' := by
  have hword := Word.toNat_injective
  have hbyte : Function.Injective UInt8.toNat := fun _ _ => UInt8.toNat_inj.mp
  constructor
  · intro h
    obtain ⟨hcell, hregister, hstack, hpc, hunread, hwritten⟩ := Snapshot.ext_iff.mp h
    exact
      { memory := Memory.ext_of_words fun address => hword (congrFun hcell address)
        registers := RegisterFile.ext_of_get fun r => hword (congrFun hregister r)
        stack := hword.list_map hstack
        pc := hword hpc
        unread := hbyte.list_map hunread
        written := hbyte.list_map hwritten }
  · intro h
    rw [snapshot, snapshot, h.memory, h.registers, h.stack, h.pc, h.unread, h.written]

end Machine

end WordMachine
