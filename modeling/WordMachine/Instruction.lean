import WordMachine.Operand

/-!
# Instructions

An instruction is an opcode with its operands; results always go to a register. `words` writes an
instruction as words and `ofWords` reads the one at the head of a word list. `decode` reads at a
position of a longer stream.
-/

namespace WordMachine

/-- An instruction of the machine. -/
inductive Instruction
  | halt
  | set (target : Register) (source : Operand)
  | push (source : Operand)
  | pop (target : Register)
  | binary (op : BinaryOp) (target : Register) (left right : Operand)
  | jump (destination : Operand)
  | branch (nonzero : Bool) (condition destination : Operand)
  | not (target : Register) (source : Operand)
  | load (target : Register) (address : Operand)
  | store (address source : Operand)
  | call (destination : Operand)
  | ret
  | output (source : Operand)
  | input (target : Register)
  | noop
  deriving DecidableEq, Repr

namespace Instruction

/-- What the instruction does, without its operands. -/
def opcode : Instruction → Opcode
  | halt => .halt
  | set .. => .set
  | push _ => .push
  | pop _ => .pop
  | binary op .. => .binary op
  | jump _ => .jump
  | branch nonzero .. => .branch nonzero
  | not .. => .not
  | load .. => .load
  | store .. => .store
  | call _ => .call
  | ret => .ret
  | output _ => .output
  | input _ => .input
  | noop => .noop

/-- The operands in the order in which they are written, the result register among them. -/
def operands : Instruction → List Operand
  | halt | ret | noop => []
  | set target source => [.register target, source]
  | push source => [source]
  | pop target => [.register target]
  | binary _ target left right => [.register target, left, right]
  | jump destination => [destination]
  | branch _ condition destination => [condition, destination]
  | not target source => [.register target, source]
  | load target address => [.register target, address]
  | store address source => [address, source]
  | call destination => [destination]
  | output source => [source]
  | input target => [.register target]

/-- The number of words, the opcode included. -/
def length (i : Instruction) : Nat := i.opcode.arity + 1

/-- The words of an instruction. -/
def words (i : Instruction) : List Word := i.opcode.toWord :: i.operands.map Operand.toWord

/-- Every literal is small enough to be told from a register. -/
def IsEncodable (i : Instruction) : Prop := ∀ operand ∈ i.operands, operand.IsEncodable

@[simp] theorem length_operands (i : Instruction) : i.operands.length = i.opcode.arity := by
  cases i <;> rfl

@[simp] theorem length_words (i : Instruction) : i.words.length = i.length := by
  simp [words, length]

theorem length_pos (i : Instruction) : 0 < i.length := Nat.succ_pos _

theorem length_le_four (i : Instruction) : i.length ≤ 4 :=
  Nat.succ_le_succ i.opcode.arity_le_three

/-! ### Reading -/

/-- The register that the word in result position `position` refers to. -/
def resultRegister (opcode : Opcode) (position : Nat) (w : Word) : Except DecodeError Register :=
  match Operand.ofWord w with
  | .ok (.register r) => .ok r
  | .ok (.literal value) => .error (.notARegister opcode position value)
  | .error e => .error e

/-- The instruction with a given opcode whose operands are at the head of `rest`. -/
def ofOperandWords (opcode : Opcode) (rest : List Word) : Except DecodeError Instruction := do
  match opcode, rest with
  | .halt, _ => return halt
  | .set, a :: b :: _ => return set (← resultRegister .set 0 a) (← Operand.ofWord b)
  | .push, a :: _ => return push (← Operand.ofWord a)
  | .pop, a :: _ => return pop (← resultRegister .pop 0 a)
  | .binary op, a :: b :: c :: _ =>
    return binary op (← resultRegister (.binary op) 0 a) (← Operand.ofWord b) (← Operand.ofWord c)
  | .jump, a :: _ => return jump (← Operand.ofWord a)
  | .branch nonzero, a :: b :: _ =>
    return branch nonzero (← Operand.ofWord a) (← Operand.ofWord b)
  | .not, a :: b :: _ => return not (← resultRegister .not 0 a) (← Operand.ofWord b)
  | .load, a :: b :: _ => return load (← resultRegister .load 0 a) (← Operand.ofWord b)
  | .store, a :: b :: _ => return store (← Operand.ofWord a) (← Operand.ofWord b)
  | .call, a :: _ => return call (← Operand.ofWord a)
  | .ret, _ => return ret
  | .output, a :: _ => return output (← Operand.ofWord a)
  | .input, a :: _ => return input (← resultRegister .input 0 a)
  | .noop, _ => return noop
  | opcode, rest => throw (.truncated opcode opcode.arity rest.length)

/-- The instruction at the head of a word list, and the number of words it takes. -/
def ofWords : List Word → Except DecodeError (Instruction × Nat)
  | [] => .error .endOfStream
  | w :: rest =>
    match Opcode.ofWord? w with
    | none => .error (.unknownOpcode w)
    | some opcode => do return (← ofOperandWords opcode rest, opcode.arity + 1)

/-- The instruction at position `at` of a word stream, and the number of words it takes. No
instruction is longer than the four words looked at. -/
def decode (stream : Array Word) (position : Nat) : Except DecodeError (Instruction × Nat) :=
  ofWords (stream.extract position (position + 4)).toList

@[simp] theorem resultRegister_register (opcode : Opcode) (position : Nat) (r : Register) :
    resultRegister opcode position (Operand.register r).toWord = .ok r := by
  simp [resultRegister, Operand.ofWord_toWord_register]

theorem toWord_of_resultRegister {opcode : Opcode} {position : Nat} {w : Word} {r : Register}
    (h : resultRegister opcode position w = .ok r) : (Operand.register r).toWord = w := by
  unfold resultRegister at h
  split at h
  · next hw =>
    cases h
    exact (Operand.toWord_of_ofWord hw).1
  · cases h
  · cases h

end Instruction

end WordMachine
