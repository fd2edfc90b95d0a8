import WordMachine.Proofs.Instruction.OneLine
import WordMachine.Proofs.Machine.Logging
import WordMachine.Proofs.Text.Line
import WordMachine.Proofs.Text.Pieces

/-!
# Reading the lines of a log

A log is read line by line, with nothing to go by but its text. The line of a store, that of an
output and that of the registers are known by how they begin, and any other line is that of an
instruction (`LogEntry.ofLine`). What a store or an output reports is read off its line again
(`LogEntry.ofLine_store`, `LogEntry.ofLine_output`).

The kinds of lines cannot be taken for one another. The line of an instruction begins with a space,
or with at least thirty characters of a name (`after?_instructionLine`), and names have no spaces
and no equals signs in them. No line holds a line feed (`isOneLine_of_mem_logLines`).
-/

namespace WordMachine

open Text

/-! ### Readers -/

/-- What a line of a log is about. -/
inductive LogEntry
  /-- An instruction that is about to be carried out. -/
  | instruction
  /-- A word that is about to be stored. -/
  | stored (address value : Word)
  /-- A byte that is about to be written, as a number. -/
  | wrote (number : Nat)
  /-- The registers. -/
  | registers
  deriving DecidableEq, Repr

namespace LogEntry

/-- The address and the value in a line such as `writing 5 to 100`. -/
def storeReport? (line : List Char) : Option (Word × Word) := do
  let (value, rest) ← (after? "writing ".toList line).bind (cutAt? ' ')
  let address ← after? "to ".toList rest
  return (← decimalWord? address, ← decimalWord? value)

/-- The number in a line such as `=== out: 'A' (65) ===`: the last digits in it. -/
def outputReport? (line : List Char) : Option Nat := do
  let _ ← after? "=== out: ".toList line
  let backwards ← after? ") ===".toList.reverse line.reverse
  decimal? (backwards.takeWhile Char.isDigit).reverse

/-- What a line is about. -/
def ofLine (line : List Char) : LogEntry :=
  match storeReport? line with
  | some (address, value) => stored address value
  | none =>
    match outputReport? line with
    | some number => wrote number
    | none => if (after? "r0=".toList line).isSome then registers else instruction

/-- The address and the value of a store. -/
def stored? : LogEntry → Option (Word × Word)
  | stored address value => some (address, value)
  | _ => none

/-- The byte of an output, as a number. -/
def wrote? : LogEntry → Option Nat
  | wrote number => some number
  | _ => none

/-! ### Stores, outputs and registers -/

/-- The line of a store reports the address and the value. -/
theorem ofLine_store (value address : Word) :
    ofLine ("writing " ++ value.text ++ " to " ++ address.text).toList = stored address value := by
  have hafter : after? "writing ".toList
      ("writing " ++ value.text ++ " to " ++ address.text).toList =
        some (value.text.toList ++ ' ' :: ("to ".toList ++ address.text.toList)) := by
    rw [after?_eq_some_iff]
    simp
  have hspace : ' ' ∉ value.text.toList := fun hmem =>
    absurd (isDigit_of_mem_decimal hmem) (by decide)
  have hto : after? "to ".toList ("to ".toList ++ address.text.toList) =
      some address.text.toList := after?_eq_some_iff.mpr rfl
  have hvalue : decimalWord? value.text.toList = some value := decimalWord?_decimal value
  have haddress : decimalWord? address.text.toList = some address := decimalWord?_decimal address
  have hreport : storeReport? ("writing " ++ value.text ++ " to " ++ address.text).toList =
      some (address, value) := by
    rw [storeReport?, hafter, Option.bind_some, cutAt?_append hspace]
    simp only [Option.bind_eq_bind, Option.bind_some, hto, haddress, hvalue]
    rfl
  rw [ofLine, hreport]

/-- The line of an output reports the byte as a number. -/
theorem ofLine_output (b : UInt8) :
    ofLine ("=== out: " ++ quotedByte b ++ " (" ++ decimal b.toNat ++ ") ===").toList =
      wrote b.toNat := by
  let shown := (quotedByte b ++ " (").toList
  let digits := (decimal b.toNat).toList
  have hline : ("=== out: " ++ quotedByte b ++ " (" ++ decimal b.toNat ++ ") ===").toList =
      "=== out: ".toList ++ (shown ++ (digits ++ ") ===".toList)) := by
    simp [shown, digits]
  have hbackwards : ("=== out: ".toList ++ (shown ++ (digits ++ ") ===".toList))).reverse =
      ") ===".toList.reverse ++ (digits.reverse ++
        '(' :: ("=== out: " ++ quotedByte b ++ " ").toList.reverse) := by
    simp [shown]
  have hdigits (rest : List Char) :
      (digits.reverse ++ '(' :: rest).takeWhile Char.isDigit = digits.reverse := by
    refine (takeWhile_dropWhile_iff.mpr ⟨rfl, fun c hc => ?_, stopsBefore_cons rfl _⟩).1
    exact isDigit_of_mem_decimal (List.mem_reverse.mp hc)
  have hreport : outputReport? ("=== out: ".toList ++ (shown ++ (digits ++ ") ===".toList))) =
      some b.toNat := by
    rw [outputReport?, after?_eq_some_iff.mpr rfl, hbackwards, after?_eq_some_iff.mpr rfl]
    simp only [Option.bind_eq_bind, Option.bind_some, hdigits, List.reverse_reverse]
    exact decimal?_decimal b.toNat
  have hstore : storeReport? ("=== out: ".toList ++ (shown ++ (digits ++ ") ===".toList))) =
      none := rfl
  rw [hline, ofLine, hstore, hreport]

private theorem exists_intercalate_of_head? {texts : List String} {first : String}
    (h : texts.head? = some first) (separator : String) :
    ∃ rest, separator.intercalate texts = first ++ rest := by
  obtain ⟨others, rfl⟩ := List.head?_eq_some_iff.mp h
  cases others with
  | nil => exact ⟨"", by simp⟩
  | cons next others =>
    refine ⟨separator ++ separator.intercalate (next :: others), ?_⟩
    rw [String.intercalate_cons_cons, String.append_assoc]

/-- The line of the registers begins with the first of them. -/
private theorem exists_text_eq (file : RegisterFile) : ∃ rest, file.text = "r0=" ++ rest := by
  have hpos : 0 < file.cells.toList.length := by simp
  obtain ⟨first, others, hcells⟩ := List.exists_cons_of_length_pos hpos
  have htext : ∃ rest, file.text = "r" ++ decimal 0 ++ "=" ++ first.text ++ rest := by
    refine exists_intercalate_of_head? ?_ ", "
    rw [hcells]
    rfl
  obtain ⟨rest, hrest⟩ := htext
  have hzero : "r" ++ decimal 0 ++ "=" = "r0=" := by decide
  exact ⟨first.text ++ rest, by rw [hrest, hzero, String.append_assoc]⟩

theorem ofLine_registers (file : RegisterFile) : ofLine file.text.toList = registers := by
  obtain ⟨rest, hrest⟩ := exists_text_eq file
  have hline : file.text.toList = "r0=".toList ++ rest.toList := by
    rw [hrest, String.toList_append]
  have hstore : storeReport? ("r0=".toList ++ rest.toList) = none := rfl
  have houtput : outputReport? ("r0=".toList ++ rest.toList) = none := rfl
  rw [hline, ofLine, hstore, houtput, after?_eq_some_iff.mpr rfl]
  rfl

/-! ### Instructions -/

variable {symbols : SymbolTable}

/-- What the line of an instruction cannot begin with: anything up to the width of the column of
names that does not begin with a space, but has a character in it that names have not. -/
theorem after?_instructionLine (hnames : symbols.HasWordNames) (htable : symbols.WellFormed)
    {beginning : List Char} (hlength : beginning.length ≤ 30)
    (hspace : beginning.head? ≠ some ' ') (hother : ∃ c ∈ beginning, isNameCharacter c = false)
    (pc : Word) (i : Instruction) :
    after? beginning (Machine.instructionLine symbols pc i).toList = none := by
  obtain ⟨c, hc, hcother⟩ := hother
  let name := (symbols.addressName pc).toList
  let rest := (": " ++ i.render symbols).toList
  have hline : (Machine.instructionLine symbols pc i).toList =
      List.replicate (30 - name.length) ' ' ++ (name ++ rest) := by
    simp [Machine.instructionLine, alignRight, spaces, name, rest, String.length_toList]
  refine Option.eq_none_iff_forall_ne_some.mpr fun behind hafter => ?_
  rw [after?_eq_some_iff, hline] at hafter
  by_cases hlong : 30 ≤ name.length
  · -- The beginning lies within the name.
    rw [Nat.sub_eq_zero_of_le hlong, List.replicate_zero, List.nil_append] at hafter
    have hbegins : beginning <+: name :=
      List.prefix_of_prefix_length_le ⟨behind, hafter.symm⟩ (List.prefix_append name rest)
        (Nat.le_trans hlength hlong)
    have hcname := hnames.addressName htable pc c (hbegins.subset hc)
    rw [hcother] at hcname
    cases hcname
  · -- The line begins with a space.
    obtain ⟨n, hn⟩ := Nat.exists_eq_succ_of_ne_zero (Nat.sub_ne_zero_of_lt (Nat.lt_of_not_le hlong))
    obtain ⟨first, others, rfl⟩ := List.exists_cons_of_ne_nil (List.ne_nil_of_mem hc)
    rw [hn, List.replicate_succ, List.cons_append, List.cons_append, List.cons.injEq] at hafter
    exact hspace (congrArg some hafter.1.symm)

/-- The line of an instruction is not taken for another one. -/
theorem ofLine_instructionLine (hnames : symbols.HasWordNames) (htable : symbols.WellFormed)
    (pc : Word) (i : Instruction) :
    ofLine (Machine.instructionLine symbols pc i).toList = instruction := by
  obtain ⟨hspace, hequals, -⟩ := isNameCharacter_eq_false
  have hstore := after?_instructionLine hnames htable
    (by decide : "writing ".toList.length ≤ 30) (by decide) ⟨' ', by decide, hspace⟩
  have houtput := after?_instructionLine hnames htable
    (by decide : "=== out: ".toList.length ≤ 30) (by decide) ⟨'=', by decide, hequals⟩
  have hdump := after?_instructionLine hnames htable
    (by decide : "r0=".toList.length ≤ 30) (by decide) ⟨'=', by decide, hequals⟩
  rw [ofLine, storeReport?, outputReport?, hstore pc i, houtput pc i, hdump pc i]
  rfl

end LogEntry

/-! ### One line each -/

namespace Instruction

/-- A remark is one line, whatever byte is put out. -/
private theorem isOneLine_remark {i : Instruction} {core : Core} {remark : String}
    (h : i.remark? core = some remark) : IsOneLine remark := by
  cases i with
  | store address source =>
    cases h
    simpa [Word.isOneLine_text] using (by decide : IsOneLine "writing " ∧ IsOneLine " to ")
  | output source =>
    cases h
    simpa [isOneLine_quotedByte, isOneLine_decimal] using
      (by decide : (IsOneLine "=== out: " ∧ IsOneLine " (") ∧ IsOneLine ") ===")
  | _ => cases h

end Instruction

private theorem RegisterFile.isOneLine_text (file : RegisterFile) : IsOneLine file.text := by
  refine isOneLine_intercalate (by decide) fun text htext => ?_
  obtain ⟨⟨value, n⟩, -, rfl⟩ := List.mem_map.mp htext
  simpa [isOneLine_decimal, Word.isOneLine_text] using (by decide : IsOneLine "r" ∧ IsOneLine "=")

namespace Machine

variable {symbols : SymbolTable}

/-- No line of a log holds a line feed. -/
theorem isOneLine_of_mem_logLines (hnames : symbols.HasWordNames) (htable : symbols.WellFormed)
    {dumps : Bool} {m : Machine} {line : String} (h : line ∈ logLines symbols dumps m) :
    IsOneLine line := by
  rw [logLines] at h
  split at h
  · cases h
  · next i _ _ =>
    obtain rfl | h := List.mem_cons.mp h
    · have hname := isOneLine_of_isNameCharacter (hnames.addressName htable m.pc)
      exact ((hname.alignRight 30).append (by decide)).append (i.isOneLine_render hnames htable)
    · obtain h | h := List.mem_append.mp h
      · exact Instruction.isOneLine_remark (Option.mem_toList.mp h)
      · have hdump : dump? symbols dumps m = some line := Option.mem_toList.mp h
        rw [dump?] at hdump
        split at hdump
        · obtain ⟨executed, -, rfl⟩ := Option.map_eq_some_iff.mp hdump
          exact executed.2.registers.isOneLine_text
        · cases hdump

end Machine

end WordMachine
