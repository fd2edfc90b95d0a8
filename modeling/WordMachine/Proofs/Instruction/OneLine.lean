import WordMachine.Instruction.Rendering
import WordMachine.Proofs.Symbol.Names
import WordMachine.Proofs.Text.OneLine

/-!
# Instructions on one line

Where all names consist of word characters, as those in a symbol file do, the name of an address
stays on one line, and so does the text of an instruction (`Instruction.isOneLine_render`).
-/

namespace WordMachine

open Text

theorem isOneLine_of_isNameCharacter {name : String}
    (h : ∀ c ∈ name.toList, isNameCharacter c = true) : IsOneLine name :=
  isOneLine_of_all isNameCharacter_eq_false.2.2 h

theorem SymbolTable.HasWordNames.isOneLine_addressName {symbols : SymbolTable}
    (hnames : symbols.HasWordNames) (htable : symbols.WellFormed) (address : Word) :
    IsOneLine (symbols.addressName address) :=
  isOneLine_of_isNameCharacter (hnames.addressName htable address)

theorem Word.isOneLine_text (w : Word) : IsOneLine w.text := isOneLine_decimal w.toNat

private theorem Register.isOneLine_name (r : Register) : IsOneLine r.name :=
  (by decide : IsOneLine "r").append (isOneLine_decimal r.val)

private theorem Operand.isOneLine_text (operand : Operand) : IsOneLine operand.text := by
  cases operand with
  | literal value => exact value.isOneLine_text
  | register r => exact r.isOneLine_name

private theorem Opcode.isOneLine_mnemonic (opcode : Opcode) : IsOneLine opcode.mnemonic := by
  cases opcode with
  | binary op => cases op <;> decide
  | branch nonzero => cases nonzero <;> decide
  | _ => decide

namespace Instruction

variable {symbols : SymbolTable}

private theorem isOneLine_targetText (hnames : symbols.HasWordNames) (htable : symbols.WellFormed)
    (operand : Operand) : IsOneLine (targetText symbols operand) := by
  cases operand with
  | register r => exact Register.isOneLine_name r
  | literal address =>
    rw [targetText]
    split
    · next e offset hfound =>
      have hname := hnames e (htable.contains_of_lookupAddress? hfound).1
      have hoffset := isOneLine_of_isNameCharacter (hname.offsetName offset)
      simpa [Word.isOneLine_text, hoffset] using (by decide : IsOneLine " <" ∧ IsOneLine ">")
    · exact Word.isOneLine_text address

private theorem isOneLine_characterText (value : Word) : IsOneLine (characterText value) := by
  rw [characterText]
  split
  · next hprintable =>
    have hquote : IsOneLine "'" := by decide
    exact (hquote.append (isOneLine_of_isPrintable hprintable)).append hquote
  · exact (by decide : IsOneLine "0x").append (isOneLine_hexadecimalPair _)

private theorem isOneLine_of_mem_operandTexts (hnames : symbols.HasWordNames)
    (htable : symbols.WellFormed) (i : Instruction) :
    ∀ text ∈ i.operandTexts symbols, IsOneLine text := by
  have htarget := isOneLine_targetText hnames htable
  have hoperands : ∀ text ∈ i.operands.map Operand.text, IsOneLine text := by
    rintro _ htext
    obtain ⟨operand, -, rfl⟩ := List.mem_map.mp htext
    exact operand.isOneLine_text
  cases i with
  | jump destination | call destination => exact List.forall_mem_singleton.mpr (htarget destination)
  | branch _ condition destination =>
    exact List.forall_mem_cons.mpr
      ⟨condition.isOneLine_text, List.forall_mem_singleton.mpr (htarget destination)⟩
  | load target address =>
    exact List.forall_mem_cons.mpr
      ⟨target.isOneLine_name, List.forall_mem_singleton.mpr (htarget address)⟩
  | store address source =>
    exact List.forall_mem_cons.mpr
      ⟨htarget address, List.forall_mem_singleton.mpr source.isOneLine_text⟩
  | output source =>
    cases source with
    | literal value => exact List.forall_mem_singleton.mpr (isOneLine_characterText value)
    | register r => exact hoperands
  | _ => exact hoperands

/-- An instruction is written on one line. -/
theorem isOneLine_render (hnames : symbols.HasWordNames) (htable : symbols.WellFormed)
    (i : Instruction) : IsOneLine (i.render symbols) := by
  have hspace : IsOneLine " " := by decide
  rw [render]
  split
  · exact i.opcode.isOneLine_mnemonic
  · next texts _ =>
    refine (i.opcode.isOneLine_mnemonic.append hspace).append (isOneLine_intercalate (by decide) ?_)
    exact isOneLine_of_mem_operandTexts hnames htable i

end Instruction

end WordMachine
