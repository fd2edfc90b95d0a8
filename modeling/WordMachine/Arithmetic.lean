import WordMachine.Opcode

/-!
# Arithmetic on words

Sums and products are formed in 32 bits and taken modulo 32768, and so is the complement; the other
operations keep all 16 bits. Comparisons give one or zero. There is no remainder by zero.

No sum or product of two words is lost in 32 bits (`Word.toNat_add_toUInt32`,
`Word.toNat_mul_toUInt32`).
-/

namespace WordMachine

/-- One for true and zero for false. -/
def Word.ofBool (b : Bool) : Word := if b then 1 else 0

/-- A 32-bit number modulo 32768. -/
def Word.wrapped (n : UInt32) : Word := (n % 32768).toUInt16

/-- The complement of the low 15 bits. -/
def Word.complement (w : Word) : Word := ~~~w &&& 0x7FFF

/-- The result of an operation, unless it is a remainder by zero. -/
def BinaryOp.eval? (op : BinaryOp) (left right : Word) : Option Word :=
  match op with
  | equal => some (.ofBool (left = right))
  | greater => some (.ofBool (right < left))
  | add => some (.wrapped (left.toUInt32 + right.toUInt32))
  | multiply => some (.wrapped (left.toUInt32 * right.toUInt32))
  | modulo => if right = 0 then none else some (left % right)
  | and => some (left &&& right)
  | or => some (left ||| right)

theorem Word.toNat_wrapped (n : UInt32) : (Word.wrapped n).toNat = n.toNat % 32768 := by
  simp only [wrapped, UInt32.toNat_toUInt16, UInt32.toNat_mod, UInt32.reduceToNat]
  omega

theorem Word.toNat_add_toUInt32 (left right : Word) :
    (left.toUInt32 + right.toUInt32).toNat = left.toNat + right.toNat := by
  have hleft := left.toNat_lt
  have hright := right.toNat_lt
  simp only [UInt32.toNat_add, UInt16.toNat_toUInt32]
  omega

theorem Word.toNat_mul_toUInt32 (left right : Word) :
    (left.toUInt32 * right.toUInt32).toNat = left.toNat * right.toNat := by
  have hle : left.toNat * right.toNat ≤ 65535 * 65535 :=
    Nat.mul_le_mul (Nat.le_of_lt_succ left.toNat_lt) (Nat.le_of_lt_succ right.toNat_lt)
  simp only [UInt32.toNat_mul, UInt16.toNat_toUInt32]
  omega

/-- The complement of the low 15 bits is what is missing to 32767. -/
theorem Word.toNat_complement (w : Word) : w.complement.toNat = 32767 - w.toNat % 32768 := by
  have hlt := w.toNat_lt
  have hmask : (0x7FFF : Word).toNat = 2 ^ 15 - 1 := rfl
  rw [complement, UInt16.toNat_and, UInt16.toNat_not, hmask, Nat.and_two_pow_sub_one_eq_mod]
  simp only [UInt16.size]
  omega

end WordMachine
