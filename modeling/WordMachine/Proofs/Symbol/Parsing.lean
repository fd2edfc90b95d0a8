import Mathlib.Data.List.Forall2
import Mathlib.Data.List.Perm.Basic
import Mathlib.Data.List.ReduceOption
import WordMachine.Proofs.Symbol.Consistency
import WordMachine.Proofs.Symbol.Line
import WordMachine.Proofs.Text.Line
import WordMachine.Proofs.Text.Numeral

/-!
# Symbol files are read exactly

What a text says is stated line by line (`LineSays`, `Says`), with no table and no order of
reading. A symbol file is accepted exactly if every line has the format and the symbols that the
lines say are consistent, and then these are the symbols of the table (`ofText_exact`). Since
neither depends on the order of the lines, a file with its lines in another order is accepted or
refused alike, and all lookups have the same answers.
-/

namespace WordMachine

open Text

/-- The symbol that the fields of a line stand for. One address stands for both. -/
def SymbolLine.symbol (fields : SymbolLine) : WrittenSymbol where
  name := String.ofList fields.name
  first := number fields.first
  last := number (fields.last.getD fields.first)

/-- What a trimmed line **says**: no symbol, or one. -/
inductive LineSays : List Char → Option WrittenSymbol → Prop
  | blank : LineSays [] none
  | comment (text : List Char) : LineSays ('#' :: text) none
  | symbol {fields : SymbolLine} {line : List Char} (h : fields.Spells line) :
    LineSays line (some fields.symbol)

/-- The lines of a text have the format of symbol files, and **say** the given symbols in order. -/
def Says (text : List Char) (symbols : List WrittenSymbol) : Prop :=
  ∃ readings,
    List.Forall₂ (fun line reading => LineSays (trim line) reading) (lines text) readings ∧
      readings.reduceOption = symbols

namespace SymbolTable

variable {table grown : SymbolTable} {line digits : List Char} {fields : SymbolLine}
  {reading reading' : Option WrittenSymbol} {texts : List (List Char)}
  {readings : List (Option WrittenSymbol)} {symbols symbols' : List WrittenSymbol}
  {text : List Char}

/-! ### Lines -/

theorem isSkipped_iff : isSkipped line = true ↔ LineSays line none := by
  rw [isSkipped, Bool.or_eq_true, List.isEmpty_iff, decide_eq_true_iff]
  constructor
  · rintro (rfl | hmark)
    · exact .blank
    · obtain ⟨text, rfl⟩ := List.head?_eq_some_iff.mp hmark
      exact .comment text
  · rintro (_ | text)
    · exact .inl rfl
    · exact .inr rfl

/-- A line says one thing at most. -/
theorem lineSays_unique (h : LineSays line reading) (h' : LineSays line reading') :
    reading = reading' := by
  have hskipped {fields : SymbolLine} (hnone : LineSays line none) (hspells : fields.Spells line) :
      False := by
    have htrue := isSkipped_iff.mpr hnone
    rw [hspells.isSkipped_eq_false] at htrue
    cases htrue
  cases reading with
  | none =>
    cases h' with
    | blank => rfl
    | comment text => rfl
    | symbol hspells => exact (hskipped h hspells).elim
  | some s =>
    cases h with
    | symbol hspells =>
      cases h' with
      | blank => exact (hskipped .blank hspells).elim
      | comment text => exact (hskipped (.comment text) hspells).elim
      | symbol hspells' => rw [hspells.unique hspells']

theorem readAddress_eq_ok_iff {w : Word} (h : Stretch Char.isDigit digits) :
    readAddress digits = .ok w ↔ number digits = w.toNat := by
  rw [← decimalWord?_eq_some_iff h.ne_nil h.all, readAddress]
  cases decimalWord? digits <;> simp

/-- The symbol of a line is added if its addresses are words. -/
theorem addLine_eq_ok_iff (hspells : fields.Spells line) :
    addLine table line = .ok grown ↔
      ∃ e : SymbolEntry, e.written = fields.symbol ∧
        table.add e.name e.first e.last = .ok grown := by
  have hfirst (w : Word) := readAddress_eq_ok_iff (w := w) hspells.stretch_first
  have hlast (w : Word) := readAddress_eq_ok_iff (w := w) hspells.stretch_last
  rw [addLine, hspells.isSkipped_eq_false, SymbolLine.ofLine?_eq_some_iff.mpr hspells]
  simp only [bind, Except.bind]
  constructor
  · intro h
    cases hreadFirst : readAddress fields.first with
    | error e => simp [hreadFirst] at h
    | ok first =>
      cases hreadLast : readAddress (fields.last.getD fields.first) with
      | error e => simp [hreadFirst, hreadLast] at h
      | ok last =>
        have hwritten : (SymbolEntry.mk (String.ofList fields.name) first last).written =
            fields.symbol :=
          WrittenSymbol.ext rfl ((hfirst first).mp hreadFirst).symm
            ((hlast last).mp hreadLast).symm
        simp only [hreadFirst, hreadLast] at h
        cases hadd : table.add (String.ofList fields.name) first last with
        | error e => simp [hadd, throw, throwThe, MonadExceptOf.throw] at h
        | ok added =>
          rw [hadd] at h
          cases h
          exact ⟨_, hwritten, hadd⟩
  · rintro ⟨⟨name, first, last⟩, hwritten, hadd⟩
    obtain ⟨hname, hfirst', hlast'⟩ := WrittenSymbol.ext_iff.mp hwritten
    have hname : name = String.ofList fields.name := hname
    subst hname
    simp only [(hfirst first).mpr hfirst'.symm, (hlast last).mpr hlast'.symm, hadd]
    rfl

/-- A line that is accepted adds what it says. -/
private theorem says_of_addLine (h : table.WellFormed) (hadd : addLine table line = .ok grown) :
    grown.WellFormed ∧ ∃ reading, LineSays line reading ∧
      grown.written = table.written ++ reading.toList := by
  by_cases hskipped : isSkipped line = true
  · rw [addLine, if_pos hskipped] at hadd
    cases hadd
    exact ⟨h, none, isSkipped_iff.mp hskipped, (List.append_nil _).symm⟩
  · cases hline : SymbolLine.ofLine? line with
    | none =>
      rw [addLine, if_neg hskipped, hline] at hadd
      cases hadd
    | some fields =>
      have hspells := SymbolLine.ofLine?_eq_some_iff.mp hline
      obtain ⟨e, hwritten, hadd⟩ := (addLine_eq_ok_iff hspells).mp hadd
      refine ⟨h.of_add_eq_ok hadd, _, .symbol hspells, ?_⟩
      obtain ⟨-, rfl⟩ := h.add_eq_ok_iff.mp hadd
      rw [written_inserted, hwritten]
      rfl

/-- A line is accepted if what it says is consistent with what is there. -/
private theorem exists_addLine (h : table.WellFormed) (hsaid : LineSays line reading)
    (hconsistent : WrittenSymbol.Consistent (table.written ++ reading.toList)) :
    ∃ grown, addLine table line = .ok grown := by
  cases reading with
  | none => exact ⟨table, by rw [addLine, if_pos (isSkipped_iff.mpr hsaid)]⟩
  | some s =>
    obtain ⟨hle, hlt⟩ := hconsistent.ranges s (List.mem_append_right _ (.head _))
    obtain ⟨e, rfl⟩ := SymbolEntry.exists_written hle hlt
    have hadd := h.add_eq_ok_iff.mpr ⟨hconsistent, rfl⟩
    generalize hsymbol : e.written = symbol at hsaid
    cases hsaid with
    | symbol hspells => exact ⟨_, (addLine_eq_ok_iff hspells).mpr ⟨e, hsymbol, hadd⟩⟩

/-! ### Texts -/

private theorem reduceOption_cons (reading : Option WrittenSymbol) (readings) :
    (reading :: readings).reduceOption = reading.toList ++ readings.reduceOption := by
  cases reading <;> rfl

/-- Lines that are accepted one after another add what they say. -/
private theorem says_of_readLinesFrom (n : Nat) (h : table.WellFormed)
    (hread : readLinesFrom addLine n table texts = .ok grown) :
    grown.WellFormed ∧ ∃ readings,
      List.Forall₂ (fun line reading => LineSays (trim line) reading) texts readings ∧
        grown.written = table.written ++ readings.reduceOption := by
  induction texts generalizing n table with
  | nil =>
    cases hread
    exact ⟨h, [], .nil, (List.append_nil _).symm⟩
  | cons line texts ih =>
    rw [readLinesFrom] at hread
    split at hread
    · next next hadd =>
      obtain ⟨hnext, reading, hsaid, hwritten⟩ := says_of_addLine h hadd
      obtain ⟨hgrown, readings, hreadings, hwritten'⟩ := ih (n + 1) hnext hread
      refine ⟨hgrown, reading :: readings, .cons hsaid hreadings, ?_⟩
      rw [hwritten', hwritten, reduceOption_cons, List.append_assoc]
    · cases hread

/-- Lines are accepted if what they say is consistent with what is there. -/
private theorem exists_readLinesFrom (n : Nat) (h : table.WellFormed)
    (hreadings : List.Forall₂ (fun line reading => LineSays (trim line) reading) texts readings)
    (hconsistent : WrittenSymbol.Consistent (table.written ++ readings.reduceOption)) :
    ∃ grown, readLinesFrom addLine n table texts = .ok grown := by
  induction hreadings generalizing n table with
  | nil => exact ⟨table, rfl⟩
  | @cons line reading texts readings hsaid _ ih =>
    rw [reduceOption_cons, ← List.append_assoc] at hconsistent
    have hfirst := hconsistent.sublist (List.sublist_append_left _ readings.reduceOption)
    obtain ⟨next, hadd⟩ := exists_addLine h hsaid hfirst
    obtain ⟨hnext, reading', hsaid', hwritten⟩ := says_of_addLine h hadd
    rw [lineSays_unique hsaid hsaid', ← hwritten] at hconsistent
    rw [readLinesFrom, hadd]
    exact ih (n + 1) hnext hconsistent

theorem says_unique (h : Says text symbols) (h' : Says text symbols') : symbols = symbols' := by
  obtain ⟨readings, hreadings, rfl⟩ := h
  obtain ⟨readings', hreadings', rfl⟩ := h'
  have hunique : Relator.RightUnique fun line reading => LineSays (trim line) reading :=
    fun _ _ _ => lineSays_unique
  rw [List.right_unique_forall₂' hunique hreadings hreadings']

/-- Lines in another order say the same symbols in another order. Only the trimmed lines matter, so
that the last line may lack its line end, and any line may end with a carriage return. -/
private theorem exists_says_of_perm {text' : List Char} (h : Says text symbols)
    (hperm : ((lines text').map trim).Perm ((lines text).map trim)) :
    ∃ symbols', Says text' symbols' ∧ symbols'.Perm symbols := by
  obtain ⟨readings, hreadings, rfl⟩ := h
  have htrimmed := List.forall₂_map_left_iff.mpr hreadings
  obtain ⟨readings', hreadings', hperm'⟩ := List.perm_comp_forall₂ hperm htrimmed
  exact ⟨readings'.reduceOption, ⟨readings', List.forall₂_map_left_iff.mp hreadings', rfl⟩,
    hperm'.filterMap id⟩

theorem says_of_ofText (h : ofText text = .ok table) :
    table.WellFormed ∧ Says text table.written := by
  obtain ⟨htable, readings, hreadings, hwritten⟩ := says_of_readLinesFrom 1 wellFormed_empty h
  exact ⟨htable, readings, hreadings, hwritten.symm⟩

/-- A line that is accepted is an attempt to add its symbol, or nothing. -/
private theorem exists_attempts_of_addLine {attempts : List SymbolEntry}
    (hadd : addLine (ofAttempts attempts) line = .ok grown) :
    ∃ attempts', grown = ofAttempts attempts' := by
  by_cases hskipped : isSkipped line = true
  · rw [addLine, if_pos hskipped] at hadd
    cases hadd
    exact ⟨attempts, rfl⟩
  · cases hline : SymbolLine.ofLine? line with
    | none =>
      rw [addLine, if_neg hskipped, hline] at hadd
      cases hadd
    | some fields =>
      obtain ⟨e, -, hadd⟩ := (addLine_eq_ok_iff (SymbolLine.ofLine?_eq_some_iff.mp hline)).mp hadd
      exact ⟨attempts ++ [e], by rw [ofAttempts_concat, attempt, hadd]⟩

/-- The tables that are read from files are among those that attempts to add symbols lead to. So
what holds of these, whatever the attempts, holds of every table. -/
theorem exists_attempts_of_ofText (h : ofText text = .ok table) :
    ∃ attempts, table = ofAttempts attempts := by
  have hread (n : Nat) (attempts : List SymbolEntry) (texts : List (List Char))
      (h : readLinesFrom addLine n (ofAttempts attempts) texts = .ok table) :
      ∃ attempts', table = ofAttempts attempts' := by
    induction texts generalizing n attempts with
    | nil =>
      cases h
      exact ⟨attempts, rfl⟩
    | cons line texts ih =>
      obtain ⟨next, hadd, hrest⟩ := readLinesFrom_cons_eq_ok_iff.mp h
      obtain ⟨attempts', rfl⟩ := exists_attempts_of_addLine hadd
      exact ih (n + 1) attempts' hrest
  exact hread 1 [] (lines text) h

private theorem exists_ofText_iff :
    (∃ table, ofText text = .ok table) ↔
      ∃ symbols, Says text symbols ∧ WrittenSymbol.Consistent symbols := by
  constructor
  · rintro ⟨table, h⟩
    obtain ⟨htable, hsaid⟩ := says_of_ofText h
    exact ⟨table.written, hsaid, htable.consistent⟩
  · rintro ⟨_, ⟨readings, hreadings, rfl⟩, hconsistent⟩
    exact exists_readLinesFrom 1 wellFormed_empty hreadings hconsistent

/-! ### The main result -/

/-- **Symbol files are read exactly, in whatever order their lines are.** A text is accepted if and
only if every line has the format of symbol files and the symbols that the lines say have different
names, lie in memory and share no address. What it says is unique, and these are the symbols of the
table.

A text with the same trimmed lines in another order is accepted if and only if this one is. All
lookups by address and by name then have the same answers. -/
theorem ofText_exact (text : List Char) :
    ((∃ table, ofText text = .ok table) ↔
        ∃ symbols, Says text symbols ∧ WrittenSymbol.Consistent symbols) ∧
      (∀ symbols symbols', Says text symbols → Says text symbols' → symbols = symbols') ∧
      (∀ table, ofText text = .ok table → Says text table.written) ∧
      ∀ text', ((lines text').map trim).Perm ((lines text).map trim) →
        ((∃ table', ofText text' = .ok table') ↔ ∃ table, ofText text = .ok table) ∧
          ∀ table table', ofText text = .ok table → ofText text' = .ok table' →
            (∀ address, table'.lookupAddress? address = table.lookupAddress? address) ∧
              ∀ name, table'.lookupName? name = table.lookupName? name := by
  have haccepted {text text' : List Char}
      (hperm : ((lines text').map trim).Perm ((lines text).map trim))
      (h : ∃ table, ofText text = .ok table) : ∃ table', ofText text' = .ok table' := by
    obtain ⟨symbols, hsaid, hconsistent⟩ := exists_ofText_iff.mp h
    obtain ⟨symbols', hsaid', hperm'⟩ := exists_says_of_perm hsaid hperm
    exact exists_ofText_iff.mpr ⟨symbols', hsaid', hconsistent.perm hperm'.symm⟩
  refine ⟨exists_ofText_iff, fun symbols symbols' => says_unique,
    fun table h => (says_of_ofText h).2, fun text' hperm => ⟨⟨?_, ?_⟩, fun table table' h h' => ?_⟩⟩
  · exact haccepted hperm.symm
  · exact haccepted hperm
  · obtain ⟨htable, hsaid⟩ := says_of_ofText h
    obtain ⟨htable', hsaid'⟩ := says_of_ofText h'
    obtain ⟨symbols', hreordered, hperm'⟩ := exists_says_of_perm hsaid hperm
    rw [says_unique hreordered hsaid'] at hperm'
    exact htable.lookup_congr htable' hperm'.symm

/-- Two symbols in both orders. The carriage return stays with the line end, and the line that comes
last has neither. -/
theorem ofText_exact_reordered :
    ((lines "a 4\r\nb 8-010 # two".toList).map trim).Perm
        ((lines "b 8-010 # two\r\na 4".toList).map trim) ∧
      ∃ table table', ofText "b 8-010 # two\r\na 4".toList = .ok table ∧
        ofText "a 4\r\nb 8-010 # two".toList = .ok table' ∧
        table'.lookupAddress? 9 = table.lookupAddress? 9 ∧
        table.lookupAddress? 9 = some (⟨"b", 8, 10⟩, 1) := by
  have hperm : ((lines "a 4\r\nb 8-010 # two".toList).map trim).Perm
      ((lines "b 8-010 # two\r\na 4".toList).map trim) := by
    decide +kernel
  have hread : ofText "b 8-010 # two\r\na 4".toList =
      .ok ⟨#[⟨"b", 8, 10⟩, ⟨"a", 4, 4⟩], #[1, 0]⟩ := by decide +kernel
  obtain ⟨-, -, -, hreordered⟩ := ofText_exact "b 8-010 # two\r\na 4".toList
  obtain ⟨haccepted, hlookups⟩ := hreordered _ hperm
  obtain ⟨table', hread'⟩ := haccepted.mpr ⟨_, hread⟩
  obtain ⟨haddresses, -⟩ := hlookups _ table' hread hread'
  exact ⟨hperm, _, table', hread, hread', haddresses 9, by decide +kernel⟩

end SymbolTable

end WordMachine
