import WordMachine.Machine.Step
import WordMachine.Proofs.Instruction.Decoding
import WordMachine.Proofs.Text.Escape
import WordMachine.Proofs.Text.Numeral
import WordMachine.Proofs.Text.Pieces

/-!
# What the text of an instruction says

The text of an instruction identifies it, up to the high byte of a literal that is put out
(`Instruction.render_eq_render_iff`). The name of an address may hold any characters, brackets and
commas too, but it is never needed to read the text. A mnemonic ends at the first character that is
no letter, and an operand at the first one that is neither a digit nor an `r`; the name behind a
literal is that of the literal in the same table, so it falls away with it.
-/

namespace WordMachine

open Text

/-! ### Mnemonics -/

private theorem Opcode.isLower_of_mem_mnemonic (opcode : Opcode) :
    ∀ c ∈ opcode.mnemonic.toList, c.isLower = true := by
  have hall : opcode.mnemonic.toList.all Char.isLower = true := by
    cases opcode with
    | binary op => cases op <;> decide
    | branch nonzero => cases nonzero <;> decide
    | _ => decide
  exact List.all_eq_true.mp hall

private theorem Opcode.find?_mnemonic (opcode : Opcode) :
    all.find? (·.mnemonic = opcode.mnemonic) = some opcode := by
  cases opcode with
  | binary op => cases op <;> decide
  | branch nonzero => cases nonzero <;> decide
  | _ => decide

theorem Opcode.mnemonic_injective : Function.Injective mnemonic := fun first second h => by
  have hfirst := first.find?_mnemonic
  rw [h, second.find?_mnemonic] at hfirst
  exact (Option.some.inj hfirst).symm

/-! ### Operands -/

/-- Whether a character may be part of an operand. -/
def isOperandCharacter (c : Char) : Bool := c.isDigit || c == 'r'

namespace Operand

private theorem isOperandCharacter_of_mem_text {operand : Operand} {c : Char}
    (h : c ∈ operand.text.toList) : isOperandCharacter c = true := by
  cases operand with
  | literal value =>
    rw [isOperandCharacter, isDigit_of_mem_decimal h, Bool.true_or]
  | register r =>
    rw [text, Register.name, String.toList_append, List.mem_append] at h
    obtain h | h := h
    · obtain rfl : c = 'r' := by simpa using h
      rfl
    · rw [isOperandCharacter, isDigit_of_mem_decimal h, Bool.true_or]

private theorem toList_text_register (r : Register) :
    (register r).text.toList = 'r' :: (decimal r.val).toList := by
  rw [text, Register.name, String.toList_append]
  rfl

/-- A literal does not begin as a register does. -/
private theorem text_literal_ne_register (value : Word) (r : Register) :
    (literal value).text ≠ (register r).text := by
  intro h
  have hmem : 'r' ∈ (literal value).text.toList := by
    rw [h, toList_text_register]
    exact .head _
  exact absurd (isDigit_of_mem_decimal hmem) (by decide)

theorem text_injective : Function.Injective text := by
  intro first second h
  cases first with
  | literal value =>
    cases second with
    | literal value' => rw [UInt16.toNat_inj.mp (decimal_injective h)]
    | register r => exact absurd h (text_literal_ne_register value r)
  | register r =>
    cases second with
    | literal value => exact absurd h.symm (text_literal_ne_register value r)
    | register r' =>
      have hlist := congrArg String.toList h
      rw [toList_text_register, toList_text_register, List.cons.injEq, String.toList_inj] at hlist
      rw [Fin.ext (decimal_injective hlist.2)]

/-- A way to write operands: the operand comes first, and what stands behind it does not begin with
a character of an operand. -/
def WrittenBy (write : Operand → String) : Prop :=
  ∀ operand, ∃ comment, write operand = operand.text ++ comment ∧
    StopsBefore isOperandCharacter comment.toList

private theorem writtenBy_text : WrittenBy text := fun _ =>
  ⟨"", String.append_empty.symm, nofun⟩

private theorem writtenBy_targetText (symbols : SymbolTable) :
    WrittenBy (Instruction.targetText symbols) := by
  intro operand
  cases operand with
  | register r => exact writtenBy_text (.register r)
  | literal address =>
    rw [Instruction.targetText]
    split
    · next entry offset _ =>
      refine ⟨" <" ++ entry.offsetName offset ++ ">", ?_, ?_⟩
      · simp [text, String.append_assoc]
      · rw [String.toList_append, String.toList_append]
        exact stopsBefore_cons (by decide) _
    · exact writtenBy_text (.literal address)

/-- An operand is read off the beginning of a text, whatever follows it. -/
theorem WrittenBy.append_inj {write : Operand → String} (h : WrittenBy write)
    {first second : Operand} {rest rest' : List Char}
    (heq : (write first).toList ++ rest = (write second).toList ++ rest')
    (hrest : StopsBefore isOperandCharacter rest) (hrest' : StopsBefore isOperandCharacter rest') :
    first = second ∧ rest = rest' := by
  obtain ⟨comment, hfirst, hcomment⟩ := h first
  obtain ⟨comment', hsecond, hcomment'⟩ := h second
  have htexts := heq
  rw [hfirst, hsecond, String.toList_append, String.toList_append, List.append_assoc,
    List.append_assoc] at htexts
  obtain ⟨htext, -⟩ := append_inj_of_stopsBefore htexts (fun _ => isOperandCharacter_of_mem_text)
    (fun _ => isOperandCharacter_of_mem_text) (stopsBefore_append hcomment hrest)
    (stopsBefore_append hcomment' hrest')
  obtain rfl := text_injective (String.toList_inj.mp htext)
  exact ⟨rfl, List.append_cancel_left heq⟩

/-- Operands are read off their texts with commas before them. -/
private theorem eq_of_flatMap_writes {writes : List (Operand → String)}
    (h : ∀ write ∈ writes, WrittenBy write) {operands operands' : List Operand}
    (hlength : operands.length = writes.length) (hlength' : operands'.length = writes.length)
    (heq : ((writes.zipWith (· ·) operands).flatMap fun text => ", ".toList ++ text.toList) =
      (writes.zipWith (· ·) operands').flatMap fun text => ", ".toList ++ text.toList) :
    operands = operands' := by
  have hstops (texts : List String) : StopsBefore isOperandCharacter
      (texts.flatMap fun text => ", ".toList ++ text.toList) := by
    cases texts with
    | nil => exact nofun
    | cons text texts => exact stopsBefore_cons (by decide) _
  induction writes generalizing operands operands' with
  | nil => rw [List.length_eq_zero_iff.mp hlength, List.length_eq_zero_iff.mp hlength']
  | cons write writes ih =>
    obtain ⟨hwrite, hwrites⟩ := List.forall_mem_cons.mp h
    obtain ⟨first, operands, rfl⟩ := List.exists_cons_of_length_eq_add_one hlength
    obtain ⟨second, operands', rfl⟩ := List.exists_cons_of_length_eq_add_one hlength'
    rw [List.zipWith_cons_cons, List.zipWith_cons_cons, List.flatMap_cons, List.flatMap_cons,
      List.append_assoc, List.append_assoc] at heq
    obtain ⟨rfl, hrest⟩ := hwrite.append_inj (List.append_cancel_left heq) (hstops _) (hstops _)
    rw [ih hwrites (Nat.succ.inj hlength) (Nat.succ.inj hlength') hrest]

end Operand

namespace Instruction

variable {symbols : SymbolTable} {i j : Instruction} {v w : Word}

/-! ### Texts of instructions -/

/-- How the operands behind an opcode are written. -/
def operandWrites (symbols : SymbolTable) : Opcode → List (Operand → String)
  | .jump | .call => [targetText symbols]
  | .branch _ | .load => [Operand.text, targetText symbols]
  | .store => [targetText symbols, Operand.text]
  | opcode => List.replicate opcode.arity Operand.text

private theorem writtenBy_of_mem_operandWrites (symbols : SymbolTable) (opcode : Opcode) :
    ∀ write ∈ operandWrites symbols opcode, Operand.WrittenBy write := by
  have htext := Operand.writtenBy_text
  have htarget := Operand.writtenBy_targetText symbols
  cases opcode with
  | jump | call | branch _ | load | store => simp [operandWrites, htext, htarget]
  | _ => exact fun write hwrite => List.eq_of_mem_replicate hwrite ▸ htext

private theorem length_operandWrites (symbols : SymbolTable) (opcode : Opcode) :
    (operandWrites symbols opcode).length = opcode.arity := by
  cases opcode with
  | jump | call | branch _ | load | store => rfl
  | _ => exact List.length_replicate

/-- Only a literal that is put out is written in another way. -/
private theorem operandTexts_eq (h : ∀ v, i ≠ .output (.literal v)) :
    i.operandTexts symbols = (operandWrites symbols i.opcode).zipWith (· ·) i.operands := by
  cases i with
  | output source =>
    cases source with
    | literal v => exact absurd rfl (h v)
    | register r => rfl
  | _ => rfl

private theorem length_operandTexts (symbols : SymbolTable) (i : Instruction) :
    (i.operandTexts symbols).length = i.opcode.arity := by
  by_cases h : ∃ v, i = .output (.literal v)
  · obtain ⟨v, rfl⟩ := h
    rfl
  · rw [operandTexts_eq (not_exists.mp h), List.length_zipWith, length_operandWrites,
      length_operands, Nat.min_self]

/-- The text behind the mnemonic. -/
def operandPart (symbols : SymbolTable) (i : Instruction) : List Char :=
  if i.operandTexts symbols = [] then []
  else ' ' :: (", ".intercalate (i.operandTexts symbols)).toList

private theorem toList_render (symbols : SymbolTable) (i : Instruction) :
    (i.render symbols).toList = i.opcode.mnemonic.toList ++ i.operandPart symbols := by
  rw [render, operandPart]
  split
  · next hnil => rw [if_pos hnil, List.append_nil]
  · next hne =>
    rw [if_neg fun hnil => hne hnil, String.toList_append, String.toList_append, List.append_assoc]
    rfl

private theorem stopsBefore_operandPart (symbols : SymbolTable) (i : Instruction) :
    StopsBefore Char.isLower (i.operandPart symbols) := by
  rw [operandPart]
  split
  · exact nofun
  · exact stopsBefore_cons (by decide) _

/-- The texts of the operands are known from what stands behind the mnemonic, up to the places of
the commas between them. -/
private theorem flatMap_operandTexts (hopcode : i.opcode = j.opcode)
    (h : i.operandPart symbols = j.operandPart symbols) :
    ((i.operandTexts symbols).flatMap fun text => ", ".toList ++ text.toList) =
      (j.operandTexts symbols).flatMap fun text => ", ".toList ++ text.toList := by
  have hlength : (i.operandTexts symbols).length = (j.operandTexts symbols).length := by
    rw [length_operandTexts, length_operandTexts, hopcode]
  rw [operandPart, operandPart] at h
  cases htexts : i.operandTexts symbols with
  | nil =>
    rw [htexts] at hlength
    rw [List.length_eq_zero_iff.mp hlength.symm]
  | cons text texts =>
    rw [htexts, List.length_cons] at hlength
    obtain ⟨text', texts', htexts'⟩ := List.exists_cons_of_length_eq_add_one hlength.symm
    rw [htexts, htexts', if_neg (List.cons_ne_nil _ _), if_neg (List.cons_ne_nil _ _),
      List.cons.injEq, toList_intercalate_cons, toList_intercalate_cons] at h
    rw [htexts', List.flatMap_cons, List.flatMap_cons, List.append_assoc, h.2, List.append_assoc]

private theorem of_render_eq (h : i.render symbols = j.render symbols) :
    i.opcode = j.opcode ∧
      ((i.operandTexts symbols).flatMap fun text => ", ".toList ++ text.toList) =
        (j.operandTexts symbols).flatMap fun text => ", ".toList ++ text.toList := by
  have htext := congrArg String.toList h
  rw [toList_render, toList_render] at htext
  obtain ⟨hmnemonic, hpart⟩ := append_inj_of_stopsBefore htext i.opcode.isLower_of_mem_mnemonic
    j.opcode.isLower_of_mem_mnemonic (stopsBefore_operandPart symbols i)
    (stopsBefore_operandPart symbols j)
  have hopcode := Opcode.mnemonic_injective (String.toList_inj.mp hmnemonic)
  exact ⟨hopcode, flatMap_operandTexts hopcode hpart⟩

/-! ### Characters that are put out -/

/-- A character is written between apostrophes, or else as a hexadecimal numeral. -/
private theorem toList_characterText_cases (v : Word) :
    (characterText v).toList = ['\'', byteCharacter v.toUInt8, '\''] ∨
      (characterText v).toList = '0' :: 'x' :: (hexadecimalPair v.toUInt8).toList := by
  rw [characterText]
  by_cases h : isPrintable v.toUInt8 = true
  · left
    simp [h]
  · right
    simp [h]

private theorem characterText_eq_iff :
    characterText v = characterText w ↔ v.toUInt8 = w.toUInt8 := by
  constructor
  · intro h
    have hlist := congrArg String.toList h
    obtain hv | hv := toList_characterText_cases v <;>
      obtain hw | hw := toList_characterText_cases w <;> rw [hv, hw] at hlist
    · exact byteCharacter_injective (by simpa using hlist)
    · simp at hlist
    · simp at hlist
    · exact hexadecimalPair_injective (String.toList_inj.mp (by simpa using hlist))
  · intro h
    rw [characterText, characterText, h]

/-- The name of a register begins with neither an apostrophe nor a zero. -/
private theorem characterText_ne_text (v : Word) (r : Register) :
    characterText v ≠ (Operand.register r).text := by
  intro h
  have hlist := congrArg String.toList h
  rw [Operand.toList_text_register] at hlist
  obtain hv | hv := toList_characterText_cases v <;> simp [hv] at hlist

/-- What is put out is the low byte of a literal, and so is what is traced. -/
private theorem execute_output_literal (h : v.toUInt8 = w.toUInt8) (pc next : Word) :
    Machine.execute (.output (.literal v)) pc next =
      Machine.execute (.output (.literal w)) pc next := by
  simp only [Machine.execute, RegisterFile.value, h]

/-- What has the text of a character that is put out puts out the same character. -/
private theorem exists_of_render_output
    (h : (output (.literal v)).render symbols = j.render symbols) :
    ∃ w, j = .output (.literal w) ∧ v.toUInt8 = w.toUInt8 := by
  obtain ⟨hopcode, htexts⟩ := of_render_eq h
  cases j with
  | output source =>
    cases source with
    | literal w =>
      have htext : characterText v = characterText w := by
        simpa [operandTexts, String.toList_inj] using htexts
      exact ⟨w, rfl, characterText_eq_iff.mp htext⟩
    | register r =>
      have htext : characterText v = (Operand.register r).text := by
        simpa [operandTexts, operands, String.toList_inj] using htexts
      exact absurd htext (characterText_ne_text v r)
  | _ => cases hopcode

/-- Other instructions with the same text are the same. -/
private theorem eq_of_render_eq (hi : ∀ v, i ≠ .output (.literal v))
    (hj : ∀ v, j ≠ .output (.literal v))
    (h : i.render symbols = j.render symbols) : i = j := by
  obtain ⟨hopcode, htexts⟩ := of_render_eq h
  rw [operandTexts_eq hi, operandTexts_eq hj, ← hopcode] at htexts
  refine eq_of_operands hopcode (Operand.eq_of_flatMap_writes
    (writtenBy_of_mem_operandWrites symbols i.opcode) ?_ ?_ htexts)
  · rw [length_operands, length_operandWrites]
  · rw [length_operands, length_operandWrites, hopcode]

private theorem render_output_literal (h : v.toUInt8 = w.toUInt8) :
    (output (.literal v)).render symbols = (output (.literal w)).render symbols := by
  rw [render, render, operandTexts, operandTexts, characterText_eq_iff.mpr h]
  rfl

/-! ### The main result -/

/-- **The text of an instruction identifies it.** With any names of addresses, two instructions have
the same text exactly if they are the same, or if both put out a literal and these have the same
low byte. So two instructions with the same text do the same to any machine, at the same address and
before the same next one. -/
theorem render_eq_render_iff (symbols : SymbolTable) (i j : Instruction) :
    (i.render symbols = j.render symbols ↔
      i = j ∨ ∃ v w, i = .output (.literal v) ∧ j = .output (.literal w) ∧
        v.toUInt8 = w.toUInt8) ∧
    (i.render symbols = j.render symbols →
      ∀ pc next m, Machine.execute i pc next m = Machine.execute j pc next m) := by
  have hcases (h : i.render symbols = j.render symbols) :
      i = j ∨ ∃ v w, i = .output (.literal v) ∧ j = .output (.literal w) ∧
        v.toUInt8 = w.toUInt8 := by
    by_cases hi : ∃ v, i = .output (.literal v)
    · obtain ⟨v, rfl⟩ := hi
      obtain ⟨w, rfl, hbyte⟩ := exists_of_render_output h
      exact .inr ⟨v, w, rfl, rfl, hbyte⟩
    · by_cases hj : ∃ w, j = .output (.literal w)
      · obtain ⟨w, rfl⟩ := hj
        obtain ⟨v, rfl, hbyte⟩ := exists_of_render_output h.symm
        exact .inr ⟨v, w, rfl, rfl, hbyte.symm⟩
      · exact .inl (eq_of_render_eq (not_exists.mp hi) (not_exists.mp hj) h)
  refine ⟨⟨hcases, ?_⟩, fun h pc next m => ?_⟩
  · rintro (rfl | ⟨v, w, rfl, rfl, hbyte⟩)
    · rfl
    · exact render_output_literal hbyte
  · obtain rfl | ⟨v, w, rfl, rfl, hbyte⟩ := hcases h
    · rfl
    · rw [execute_output_literal hbyte]

end Instruction

end WordMachine
