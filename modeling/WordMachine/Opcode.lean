import WordMachine.Text.Numeral

/-!
# Words and opcodes

The machine works on 16-bit **words**. The first word of an instruction is its **opcode**, a number
below 22 that fixes the mnemonic and how many operand words follow. `Opcode.all` lists the opcodes
in the order of their numbers, which are those of `Opcode.toWord_eq`; `Opcode.ofWord?` and
`Opcode.toWord` read that list in both directions.
-/

namespace WordMachine

open Text

/-- A 16-bit word, the unit of memory and registers. -/
abbrev Word := UInt16

/-- The decimal numeral of a word. -/
def Word.text (w : Word) : String := decimal w.toNat

/-- The number of addressable words, which is also the modulus of the arithmetic. -/
def memorySize : Nat := 32768

/-- An operation that combines two words into one. -/
inductive BinaryOp
  | equal
  | greater
  | add
  | multiply
  | modulo
  | and
  | or
  deriving DecidableEq, Repr

/-- What an instruction does, without its operands. -/
inductive Opcode
  | halt
  | set
  | push
  | pop
  /-- Combines two words. -/
  | binary (op : BinaryOp)
  | jump
  /-- Jumps if a word is not zero (`true`) or if it is zero (`false`). -/
  | branch (nonzero : Bool)
  | not
  /-- Reads memory. -/
  | load
  /-- Writes memory. -/
  | store
  | call
  | ret
  | output
  | input
  | noop
  deriving DecidableEq, Repr

namespace Opcode

/-- The opcodes in the order of their numbers, from zero. -/
def all : List Opcode :=
  [halt, set, push, pop, binary .equal, binary .greater, jump, branch true, branch false,
    binary .add, binary .multiply, binary .modulo, binary .and, binary .or, not, load, store,
    call, ret, output, input, noop]

/-- The opcode with a given number. -/
def ofWord? (w : Word) : Option Opcode := all[w.toNat]?

/-- The number of an opcode. -/
def toWord (opcode : Opcode) : Word := UInt16.ofNat (all.idxOf opcode)

/-- The name of an opcode in listings. -/
def mnemonic : Opcode → String
  | halt => "hlt"
  | set => "set"
  | push => "push"
  | pop => "pop"
  | binary .equal => "eq"
  | binary .greater => "gt"
  | jump => "jmp"
  | branch true => "jt"
  | branch false => "jf"
  | binary .add => "add"
  | binary .multiply => "mult"
  | binary .modulo => "mod"
  | binary .and => "and"
  | binary .or => "or"
  | not => "not"
  | load => "rmem"
  | store => "wmem"
  | call => "call"
  | ret => "ret"
  | output => "out"
  | input => "in"
  | noop => "nop"

/-- The number of operand words that follow the opcode. -/
def arity : Opcode → Nat
  | halt | ret | noop => 0
  | push | pop | jump | call | output | input => 1
  | set | branch _ | not | load | store => 2
  | binary _ => 3

theorem arity_le_three (opcode : Opcode) : opcode.arity ≤ 3 := by
  cases opcode <;> simp [arity]

@[simp] theorem ofWord?_toWord (opcode : Opcode) : ofWord? opcode.toWord = some opcode := by
  cases opcode with
  | binary op => cases op <;> rfl
  | branch nonzero => cases nonzero <;> rfl
  | _ => rfl

/-- The numbers of the opcodes. -/
theorem toWord_eq (opcode : Opcode) :
    opcode.toWord =
      match opcode with
      | halt => 0
      | set => 1
      | push => 2
      | pop => 3
      | binary .equal => 4
      | binary .greater => 5
      | jump => 6
      | branch true => 7
      | branch false => 8
      | binary .add => 9
      | binary .multiply => 10
      | binary .modulo => 11
      | binary .and => 12
      | binary .or => 13
      | not => 14
      | load => 15
      | store => 16
      | call => 17
      | ret => 18
      | output => 19
      | input => 20
      | noop => 21 := by
  cases opcode with
  | binary op => cases op <;> rfl
  | branch nonzero => cases nonzero <;> rfl
  | _ => rfl

theorem toWord_injective {first second : Opcode} (h : first.toWord = second.toWord) :
    first = second := by
  have := congrArg ofWord? h
  simpa using this

/-- The words that are opcodes are those below 22. -/
theorem ofWord?_eq_none_iff {w : Word} : ofWord? w = none ↔ 22 ≤ w.toNat := by
  simp [ofWord?, all]

theorem toWord_get_all (n : Fin 22) : (all.get n).toWord = UInt16.ofNat n.val := by
  revert n
  decide

theorem toWord_of_ofWord? {w : Word} {opcode : Opcode} (h : ofWord? w = some opcode) :
    opcode.toWord = w := by
  obtain ⟨hlt, rfl⟩ := List.getElem?_eq_some_iff.mp h
  exact (toWord_get_all ⟨w.toNat, hlt⟩).trans (by simp)

end Opcode

end WordMachine
