import WordMachine.Proofs.Symbol.Lookup
import WordMachine.Proofs.Symbol.Parsing
import WordMachine.Proofs.Text.Line

/-!
# Names of addresses

The symbols of a file have names that consist of word characters. So the name of any address, be it
that of a symbol with or without an offset or a numeral, consists of word characters and plus signs
(`SymbolTable.HasWordNames.addressName`). The same goes for the names that stand in instructions.
-/

namespace WordMachine

open Text

/-- Whether a character may stand in the name of an address. -/
def isNameCharacter (c : Char) : Bool := isWordCharacter c || c == '+'

/-- Names hold neither spaces nor equals signs nor line feeds. -/
theorem isNameCharacter_eq_false :
    isNameCharacter ' ' = false ∧ isNameCharacter '=' = false ∧ isNameCharacter '\n' = false := by
  decide +kernel

theorem isNameCharacter_eq_false_of_isBlank {c : Char} (h : isBlank c = true) :
    isNameCharacter c = false := by
  have hplus : c ≠ '+' := by
    rintro rfl
    exact absurd h (by decide)
  rw [isNameCharacter, isWordCharacter_eq_false h, Bool.false_or, beq_eq_false_iff_ne]
  exact hplus

private theorem isNameCharacter_of_isDigit {c : Char} (h : c.isDigit = true) :
    isNameCharacter c = true := by
  have halphanum : c.isAlphanum = true := by rw [Char.isAlphanum, h, Bool.or_true]
  rw [isNameCharacter, isWordCharacter_of_isAlphanum halphanum, Bool.true_or]

private theorem isNameCharacter_of_mem_text {w : Word} {c : Char} (h : c ∈ w.text.toList) :
    isNameCharacter c = true :=
  isNameCharacter_of_isDigit (isDigit_of_mem_decimal h)

/-- The symbol's name consists of word characters. -/
def SymbolEntry.HasWordName (entry : SymbolEntry) : Prop :=
  ∀ c ∈ entry.name.toList, isWordCharacter c = true

theorem SymbolEntry.HasWordName.offsetName {entry : SymbolEntry} (h : entry.HasWordName)
    (offset : Word) : ∀ c ∈ (entry.offsetName offset).toList, isNameCharacter c = true := by
  have hname (c : Char) (hc : c ∈ entry.name.toList) : isNameCharacter c = true := by
    rw [isNameCharacter, h c hc, Bool.true_or]
  intro c hc
  rw [SymbolEntry.offsetName] at hc
  split at hc
  · exact hname c hc
  · simp only [String.toList_append, List.mem_append] at hc
    obtain (hc | hc) | hc := hc
    · exact hname c hc
    · obtain rfl : c = '+' := by simpa using hc
      rfl
    · exact isNameCharacter_of_mem_text hc

namespace SymbolTable

variable {table : SymbolTable}

/-- All names of the table consist of word characters. -/
def HasWordNames (table : SymbolTable) : Prop := ∀ e ∈ table.added, e.HasWordName

/-- A name in a symbol file is a stretch of word characters. -/
theorem stretch_name_of_ofText {text : List Char} (h : ofText text = .ok table) {e : SymbolEntry}
    (he : e ∈ table.added) : Stretch isWordCharacter e.name.toList := by
  obtain ⟨-, readings, hreadings, hwritten⟩ := says_of_ofText h
  have hmem : some e.written ∈ readings := by
    rw [← List.reduceOption_mem_iff, hwritten]
    exact mem_written_iff.mpr he
  obtain ⟨line, -, hsaid⟩ := exists_line_of_mem hreadings hmem
  -- The line spells this very symbol.
  generalize hsymbol : e.written = symbol at hsaid
  generalize trim line = text at hsaid
  cases hsaid with
  | @symbol fields _ hspells =>
    have hsame : e.name = String.ofList fields.name := congrArg WrittenSymbol.name hsymbol
    rw [hsame, String.toList_ofList]
    exact hspells.stretch_name

/-- The names in a symbol file consist of word characters. -/
theorem hasWordNames_of_ofText {text : List Char} (h : ofText text = .ok table) :
    table.HasWordNames := fun _ he => (stretch_name_of_ofText h he).all

/-- The name of an address consists of word characters and plus signs. -/
theorem HasWordNames.addressName (hnames : table.HasWordNames) (htable : table.WellFormed)
    (address : Word) : ∀ c ∈ (table.addressName address).toList, isNameCharacter c = true := by
  rw [SymbolTable.addressName]
  split
  · next e offset hfound =>
    exact (hnames e (htable.contains_of_lookupAddress? hfound).1).offsetName offset
  · exact fun c => isNameCharacter_of_mem_text

end SymbolTable

end WordMachine
