import WordMachine.Opcode

/-!
# Operands

A word in an operand position is a **literal** below 32768 or refers to one of the eight registers
from 32768 on. Words above the registers are no operands. `DecodeError` collects what can be wrong
with the words of an instruction.
-/

namespace WordMachine

open Text

/-- One of the eight registers. -/
abbrev Register := Fin 8

/-- The name of a register. -/
def Register.name (r : Register) : String := "r" ++ decimal r.val

/-- A literal value or a register. -/
inductive Operand
  | literal (value : Word)
  | register (r : Register)
  deriving DecidableEq, Repr

/-- Why words do not form an instruction. -/
inductive DecodeError
  /-- There is no opcode word. -/
  | endOfStream
  | unknownOpcode (value : Word)
  /-- The words end before the operands do. -/
  | truncated (opcode : Opcode) (expected found : Nat)
  /-- A literal stands where the result is to go. -/
  | notARegister (opcode : Opcode) (position : Nat) (value : Word)
  /-- The word lies above the registers. -/
  | invalidOperand (value : Word)
  deriving DecidableEq, Repr

/-- The wording of a decoding error. -/
def DecodeError.message : DecodeError → String
  | endOfStream => "Unexpected end of word stream"
  | unknownOpcode value => "Unknown opcode " ++ value.text
  | truncated opcode expected found =>
    "Truncated `" ++ opcode.mnemonic ++ "` (expected " ++ decimal expected ++
      " operands, found " ++ decimal found ++ ")"
  | notARegister opcode position value =>
    "Operand " ++ decimal position ++ " of `" ++ opcode.mnemonic ++
      "` must be a register, found " ++ value.text
  | invalidOperand value => "Operand " ++ value.text ++ " is neither a literal nor a register"

namespace Operand

/-- The operand that a word stands for. -/
def ofWord (w : Word) : Except DecodeError Operand :=
  if w.toNat < 32768 then .ok (.literal w)
  else if h : w.toNat - 32768 < 8 then .ok (.register ⟨w.toNat - 32768, h⟩)
  else .error (.invalidOperand w)

/-- The word of an operand. -/
def toWord : Operand → Word
  | literal value => value
  | register r => UInt16.ofNat (32768 + r.val)

/-- A literal in decimal or the name of a register. -/
def text : Operand → String
  | literal value => value.text
  | register r => r.name

/-- Literals are below 32768; there is nothing to ask of registers. -/
def IsEncodable : Operand → Prop
  | literal value => value.toNat < 32768
  | register _ => True

theorem toNat_toWord_register (r : Register) : (register r).toWord.toNat = 32768 + r.val := by
  simp only [toWord, UInt16.toNat_ofNat']
  omega

theorem ofWord_toWord_register (r : Register) :
    ofWord (register r).toWord = .ok (register r) := by
  have h := toNat_toWord_register r
  generalize (register r).toWord = w at h
  simp [ofWord, h]

theorem ofWord_toWord {operand : Operand} (h : operand.IsEncodable) :
    ofWord operand.toWord = .ok operand := by
  cases operand with
  | literal value => simp [ofWord, toWord, show value.toNat < 32768 from h]
  | register r => exact ofWord_toWord_register r

theorem toWord_of_ofWord {w : Word} {operand : Operand} (h : ofWord w = .ok operand) :
    operand.toWord = w ∧ operand.IsEncodable := by
  unfold ofWord at h
  split at h
  · next hlt =>
    cases h
    exact ⟨rfl, hlt⟩
  · next hge =>
    split at h
    · cases h
      refine ⟨?_, trivial⟩
      have : 32768 + (w.toNat - 32768) = w.toNat := by omega
      simp [toWord, this]
    · cases h

end Operand

end WordMachine
