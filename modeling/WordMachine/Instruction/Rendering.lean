import WordMachine.Instruction
import WordMachine.Symbol
import WordMachine.Text.Escape

/-!
# Instructions as text

An instruction is written as its mnemonic and its operands with commas between them. Where a literal
is an address to jump to or to access, the name of the address follows in angle brackets. The
literal of an output instruction is written as the character it puts out.
-/

namespace WordMachine

open Text

namespace Instruction

/-- An operand that is used as an address. -/
def targetText (symbols : SymbolTable) : Operand → String
  | .literal address =>
    match symbols.lookupAddress? address with
    | some (entry, offset) => address.text ++ " <" ++ entry.offsetName offset ++ ">"
    | none => address.text
  | .register r => r.name

/-- A literal that is put out as a character. -/
def characterText (value : Word) : String :=
  let byte := value.toUInt8
  if isPrintable byte then "'" ++ (byteCharacter byte).toString ++ "'"
  else "0x" ++ hexadecimalPair byte

/-- The operands as they are written. -/
def operandTexts (symbols : SymbolTable) : Instruction → List String
  | jump destination => [targetText symbols destination]
  | call destination => [targetText symbols destination]
  | branch _ condition destination => [condition.text, targetText symbols destination]
  | load target address => [target.name, targetText symbols address]
  | store address source => [targetText symbols address, source.text]
  | output (.literal value) => [characterText value]
  | i => i.operands.map Operand.text

/-- The instruction as it is written in listings and traces. -/
def render (symbols : SymbolTable) (i : Instruction) : String :=
  match i.operandTexts symbols with
  | [] => i.opcode.mnemonic
  | texts => i.opcode.mnemonic ++ " " ++ ", ".intercalate texts

end Instruction

end WordMachine
