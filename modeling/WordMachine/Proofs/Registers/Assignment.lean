import Mathlib.Data.List.Induction
import Mathlib.Data.List.ReduceOption
import WordMachine.Proofs.LastWins
import WordMachine.Proofs.Text.Line
import WordMachine.Registers.Assignment

/-!
# What an assignment list says

A piece of the list **assigns** a value to a register if it consists of the letter `r`, the number
of the register, an equals sign and the value (`RegisterFile.Assigns`). A list is read exactly if
each of its pieces is such an assignment with or without blanks around it, or blank as a whole; then
the last assignment to a register wins (`exists_ofAssignments`, `exists_error_of_not_lists`).

A register file is written as such a list, and is read back from it (`ofAssignments_text`).
-/

namespace WordMachine

open Text

namespace RegisterFile

/-! ### One assignment -/

/-- The text **assigns** a value to a register. It consists of an `r` in either case, the number of
the register, an equals sign and the value; both numbers are written in digits of ASCII. -/
inductive Assigns : List Char → Nat × Word → Prop
  | intro {letter : Char} {digits digits' : List Char} {value : Word}
      (hletter : letter = 'r' ∨ letter = 'R') (hnumber : Stretch Char.isDigit digits)
      (hlt : number digits < 8) (hvalue : Stretch Char.isDigit digits')
      (hword : number digits' = value.toNat) :
    Assigns (letter :: (digits ++ '=' :: digits')) (number digits, value)

variable {text piece digits value : List Char} {pieces : List (List Char)} {n : Nat}
  {reading : Nat × Word} {readings : List (Option (Nat × Word))}

theorem isDigitRun_iff : isDigitRun text = true ↔ Stretch isDecimalDigit text := by
  rw [isDigitRun, Bool.and_eq_true, Bool.not_eq_true', List.isEmpty_eq_false_iff,
    List.all_eq_true]
  exact ⟨fun h => ⟨h.1, h.2⟩, fun h => ⟨h.ne_nil, h.all⟩⟩

theorem assignmentParts?_eq_some_iff :
    assignmentParts? text = some (digits, value) ↔
      ∃ letter, text = letter :: (digits ++ '=' :: value) ∧ (letter = 'r' ∨ letter = 'R') ∧
        Stretch isDecimalDigit digits ∧ Stretch isDecimalDigit value := by
  cases text with
  | nil => simp [assignmentParts?]
  | cons letter rest =>
    have hsign (h : Stretch isDecimalDigit digits) : '=' ∉ digits := fun hmem =>
      absurd (h.all '=' hmem) (by decide)
    rw [assignmentParts?]
    by_cases hletter : letter = 'r' ∨ letter = 'R'
    · rw [if_pos hletter, Option.filter_eq_some_iff, cutAt?_eq_some_iff, Bool.and_eq_true,
        isDigitRun_iff, isDigitRun_iff]
      constructor
      · rintro ⟨⟨rfl, -⟩, hdigits⟩
        exact ⟨letter, rfl, hletter, hdigits⟩
      · rintro ⟨_, ⟨⟩, -, hdigits⟩
        exact ⟨⟨rfl, hsign hdigits.1⟩, hdigits⟩
    · rw [if_neg hletter]
      constructor
      · exact nofun
      · rintro ⟨_, ⟨⟩, h, -⟩
        exact absurd h hletter

theorem registerNumber?_eq_some_iff (h : digits ≠ []) :
    registerNumber? digits = some n ↔
      (∀ c ∈ digits, c.isDigit = true) ∧ number digits = n ∧ n < UInt64.size := by
  rw [registerNumber?, Option.filter_eq_some_iff, digits?_eq_some_iff, decide_eq_true_iff]
  simp only [isSome_decimalValue?_iff]
  constructor
  · rintro ⟨⟨-, hascii, hnumber⟩, hlt⟩
    exact ⟨hascii, (numberIn_ten hascii).symm.trans hnumber, hlt⟩
  · rintro ⟨hascii, hnumber, hlt⟩
    exact ⟨⟨h, hascii, (numberIn_ten hascii).trans hnumber⟩, hlt⟩

theorem readAssignment_eq_ok_iff : readAssignment text = .ok reading ↔ Assigns text reading := by
  constructor
  · intro h
    rw [readAssignment] at h
    split at h
    · cases h
    · next digits value hparts =>
      obtain ⟨letter, rfl, hletter, hdigits, hvalue⟩ := assignmentParts?_eq_some_iff.mp hparts
      split at h
      · cases h
      · next n hn =>
        obtain ⟨hascii, rfl, -⟩ := (registerNumber?_eq_some_iff hdigits.ne_nil).mp hn
        split at h
        · cases h
        · next hlt =>
          split at h
          · cases h
          · next w hw =>
            cases h
            obtain ⟨hascii', hword⟩ := (decimalWord?_eq_some_iff_of_stretch hvalue).mp hw
            exact .intro hletter ⟨hdigits.ne_nil, hascii⟩ (Nat.lt_of_not_le hlt)
              ⟨hvalue.ne_nil, hascii'⟩ hword
  · rintro ⟨hletter, hnumber, hlt, hvalue, hword⟩
    have hdecimal {digits : List Char} (h : Stretch Char.isDigit digits) :
        Stretch isDecimalDigit digits :=
      ⟨h.ne_nil, fun c hc => isDecimalDigit_of_isDigit (h.all c hc)⟩
    rw [readAssignment, assignmentParts?_eq_some_iff.mpr
      ⟨_, rfl, hletter, hdecimal hnumber, hdecimal hvalue⟩]
    dsimp only
    rw [(registerNumber?_eq_some_iff hnumber.ne_nil).mpr
      ⟨hnumber.all, rfl, Nat.lt_trans hlt (by decide)⟩]
    dsimp only
    rw [if_neg (Nat.not_le_of_lt hlt),
      (decimalWord?_eq_some_iff hvalue.ne_nil hvalue.all).mpr hword]

/-- The characters of an assignment are the letter, digits and the equals sign. -/
private theorem Assigns.mem_cases (h : Assigns text reading) {c : Char} (hc : c ∈ text) :
    c = 'r' ∨ c = 'R' ∨ c = '=' ∨ c.isDigit = true := by
  cases h with
  | intro hletter hnumber _ hvalue _ =>
    obtain rfl | hc := List.mem_cons.mp hc
    · exact hletter.imp_right .inl
    · obtain hc | hc := List.mem_append.mp hc
      · exact .inr (.inr (.inr (hnumber.all c hc)))
      · obtain rfl | hc := List.mem_cons.mp hc
        · exact .inr (.inr (.inl rfl))
        · exact .inr (.inr (.inr (hvalue.all c hc)))

private theorem Assigns.isBlank_eq_false (h : Assigns text reading) :
    ∀ c ∈ text, isBlank c = false := by
  intro c hc
  obtain rfl | rfl | rfl | hdigit := h.mem_cases hc
  · decide
  · decide
  · decide
  · exact Text.isBlank_eq_false hdigit

private theorem Assigns.comma_notMem (h : Assigns text reading) : ',' ∉ text := fun hc => by
  obtain h | h | h | h := h.mem_cases hc
  · cases h
  · cases h
  · cases h
  · exact absurd h (by decide)

private theorem Assigns.ne_nil (h : Assigns text reading) : text ≠ [] := by
  cases h
  exact List.cons_ne_nil _ _

private theorem Assigns.lt (h : Assigns text reading) : reading.1 < 8 := by
  cases h with
  | intro _ _ hlt _ _ => exact hlt

/-! ### Pieces of a list -/

/-- What a piece of an assignment list says: nothing if it is blank, and otherwise what the
assignment says of which it consists, with or without blanks around it. -/
inductive Lists : List Char → Option (Nat × Word) → Prop
  | blank {piece : List Char} (h : ∀ c ∈ piece, isBlank c = true) : Lists piece none
  | assignment {before text behind : List Char} {reading : Nat × Word}
      (hbefore : ∀ c ∈ before, isBlank c = true) (h : Assigns text reading)
      (hbehind : ∀ c ∈ behind, isBlank c = true) :
    Lists (before ++ text ++ behind) (some reading)

private theorem lists_none_iff : Lists piece none ↔ trim piece = [] := by
  rw [trim_eq_nil_iff]
  constructor
  · rintro (h | _)
    exact h
  · exact .blank

private theorem lists_some_iff : Lists piece (some reading) ↔ Assigns (trim piece) reading := by
  constructor
  · rintro (_ | ⟨hbefore, h, hbehind⟩)
    rwa [trim_append hbefore hbehind, trim_eq_self h.isBlank_eq_false]
  · intro h
    obtain ⟨before, behind, hpiece, hbefore, hbehind⟩ := exists_blanks_trim piece
    rw [hpiece]
    exact .assignment hbefore h hbehind

private theorem Lists.comma_notMem {said : Option (Nat × Word)} (h : Lists piece said) :
    ',' ∉ piece := by
  have hblank {blanks : List Char} (h : ∀ c ∈ blanks, isBlank c = true) : ',' ∉ blanks :=
    fun hc => absurd (h ',' hc) (by decide)
  cases h with
  | blank h => exact hblank h
  | assignment hbefore h hbehind =>
    simp only [List.mem_append, not_or]
    exact ⟨⟨hblank hbefore, h.comma_notMem⟩, hblank hbehind⟩

/-! ### Lists -/

/-- Gives a register the value of an assignment. -/
def assign (file : RegisterFile) (assignment : Nat × Word) : RegisterFile :=
  file.set assignment.1 assignment.2

/-- The register file after the pieces of an assignment list, which have not been trimmed. -/
def afterPieces (file : RegisterFile) (pieces : List (List Char)) :
    Except AssignmentError RegisterFile :=
  ((pieces.map trim).filter fun piece => !piece.isEmpty).foldlM
    (fun file piece => return file.assign (← readAssignment piece)) file

private theorem ofAssignments_eq (list : List Char) :
    ofAssignments list = zero.afterPieces (list.splitOn ',') := by
  rw [ofAssignments, assignmentPieces, pieces_eq_splitOn]
  rfl

theorem afterPieces_cons (file : RegisterFile) (piece : List Char) (pieces : List (List Char)) :
    file.afterPieces (piece :: pieces) =
      if trim piece = [] then file.afterPieces pieces
      else (readAssignment (trim piece)).bind fun reading =>
        (file.assign reading).afterPieces pieces := by
  rw [afterPieces, List.map_cons]
  by_cases hblank : trim piece = []
  · rw [if_pos hblank, List.filter_cons_of_neg (by simp [hblank]), afterPieces]
  · rw [if_neg hblank, List.filter_cons_of_pos (by simp [hblank]), List.foldlM_cons]
    cases readAssignment (trim piece) <;> rfl

/-- Pieces that say something each are read, and what they say is done in order. -/
private theorem afterPieces_of_lists (h : List.Forall₂ Lists pieces readings)
    (file : RegisterFile) :
    file.afterPieces pieces = .ok (readings.reduceOption.foldl assign file) := by
  induction h generalizing file with
  | nil => rfl
  | @cons piece said _ _ hpiece _ ih =>
    rw [afterPieces_cons]
    cases said with
    | none => rw [if_pos (lists_none_iff.mp hpiece), ih, List.reduceOption_cons_of_none]
    | some reading =>
      have hreading := lists_some_iff.mp hpiece
      rw [if_neg hreading.ne_nil, readAssignment_eq_ok_iff.mpr hreading,
        List.reduceOption_cons_of_some]
      exact ih _

/-- A piece that says nothing of the kind makes the list fail as a whole. -/
theorem exists_error_of_not_lists (hmem : piece ∈ pieces) (h : ∀ said, ¬Lists piece said)
    (file : RegisterFile) : ∃ e, file.afterPieces pieces = .error e := by
  induction pieces generalizing file with
  | nil => cases hmem
  | cons first pieces ih =>
    rw [afterPieces_cons]
    obtain rfl | hmem := List.mem_cons.mp hmem
    · rw [if_neg (mt lists_none_iff.mpr (h none))]
      cases hread : readAssignment (trim piece) with
      | ok reading =>
        exact absurd (lists_some_iff.mpr (readAssignment_eq_ok_iff.mp hread)) (h (some reading))
      | error e => exact ⟨e, rfl⟩
    · split
      · exact ih hmem file
      · cases readAssignment (trim first) with
        | ok reading => exact ih hmem _
        | error e => exact ⟨e, rfl⟩

/-- Every register holds the value of the last assignment to it, or else zero. -/
private theorem get_foldl_assign {assignments : List (Nat × Word)}
    (h : ∀ assignment ∈ assignments, assignment.1 < 8) (n : Nat) :
    (assignments.foldl assign zero).get n = (assignments.reverse.lookup n).getD 0 := by
  have hget (file : RegisterFile) (assignment : Nat × Word) (n : Nat) (hlt : assignment.1 < 8) :
      (file.assign assignment).get n =
        if assignment.1 = n then id assignment.2 else file.get n := by
    rw [assign, get_set]
    by_cases heq : assignment.1 = n
    · rw [if_pos ⟨heq, heq ▸ hlt⟩, if_pos heq, id]
    · rw [if_neg fun h => heq h.1, if_neg heq]
  rw [get_foldl hget h, get_zero]
  cases assignments.reverse.lookup n <;> rfl

theorem exists_ofAssignments (h : List.Forall₂ Lists pieces readings) :
    ∃ file, ofAssignments ([','].intercalate pieces) = .ok file ∧
      ∀ n, file.get n = (readings.reduceOption.reverse.lookup n).getD 0 := by
  have hlt : ∀ reading ∈ readings.reduceOption, reading.1 < 8 := by
    intro reading hreading
    obtain ⟨piece, -, hpiece⟩ := exists_line_of_mem h (List.reduceOption_mem_iff.mp hreading)
    exact (lists_some_iff.mp hpiece).lt
  refine ⟨readings.reduceOption.foldl assign zero, ?_, get_foldl_assign hlt⟩
  rw [ofAssignments_eq]
  cases h with
  | nil => rfl
  | @cons piece said pieces readings hpiece hpieces =>
    have hcomma : ∀ text ∈ piece :: pieces, ',' ∉ text := by
      intro text htext
      obtain ⟨said', -, hsaid⟩ := exists_reading_of_mem (.cons hpiece hpieces) htext
      exact hsaid.comma_notMem
    rw [List.splitOn_intercalate ',' hcomma (List.cons_ne_nil _ _)]
    exact afterPieces_of_lists (.cons hpiece hpieces) zero

/-! ### Register files as they are written -/

/-- The text of one register. -/
def registerText (entry : Word × Nat) : String := "r" ++ decimal entry.2 ++ "=" ++ entry.1.text

private theorem assigns_registerText {value : Word} (h : n < 8) :
    Assigns (registerText (value, n)).toList (n, value) := by
  have htext : (registerText (value, n)).toList =
      'r' :: ((decimal n).toList ++ '=' :: value.text.toList) := by
    simp [registerText]
  have hstretch (n : Nat) : Stretch Char.isDigit (decimal n).toList := by
    refine ⟨?_, fun c => isDigit_of_mem_decimal⟩
    rw [toList_decimal]
    exact Nat.toDigits_ne_nil
  have hassigns := Assigns.intro (.inl rfl) (hstretch n) (by rwa [number_decimal])
    (hstretch value.toNat) (number_decimal value.toNat)
  rw [number_decimal] at hassigns
  rw [htext]
  exact hassigns

/-- Texts with a comma and a space between them are the pieces, each but the first one with the
space before it. -/
private theorem pieces_intercalate {first : String} {texts : List String}
    (hfirst : ',' ∉ first.toList)
    (htexts : ∀ text ∈ texts, ',' ∉ text.toList) :
    Text.pieces ',' (", ".intercalate (first :: texts)).toList =
      first.toList :: texts.map (' ' :: ·.toList) := by
  rw [toList_intercalate_cons]
  generalize first.toList = piece at hfirst
  induction texts generalizing piece with
  | nil => simpa using pieces_of_notMem hfirst
  | cons text texts ih =>
    obtain ⟨htext, htexts⟩ := List.forall_mem_cons.mp htexts
    have hspace : ',' ∉ ' ' :: text.toList := by simpa using htext
    have hnext := ih htexts _ hspace
    rw [List.map_cons, ← hnext, ← pieces_append hfirst]
    simp

private theorem lookup_reverse_zipIdx (values : List Word) (n : Nat) :
    (values.zipIdx.map fun (value, n) => (n, value)).reverse.lookup n = values[n]? := by
  induction values using List.reverseRecOn with
  | nil => rfl
  | append_singleton values value ih =>
    by_cases hn : n = values.length
    · simp [List.zipIdx_append, hn]
    · have hbeq : (n == values.length) = false := beq_false_of_ne hn
      have hvalue : (values ++ [value])[n]? = values[n]? := by
        grind
      rw [hvalue, ← ih]
      simp [List.zipIdx_append, List.lookup_cons, hbeq]

/-- The texts of registers with commas between them are a list that assigns them all. -/
private theorem lists_registerTexts {entry : Word × Nat} {entries : List (Word × Nat)}
    (h : ∀ entry' ∈ entry :: entries, entry'.2 < 8) :
    List.Forall₂ Lists
      ((", ".intercalate ((entry :: entries).map registerText)).toList.splitOn ',')
      ((entry :: entries).map fun (value, n) => some (n, value)) := by
  have hassigns (entry' : Word × Nat) (hmem : entry' ∈ entry :: entries) :
      Assigns (registerText entry').toList (entry'.2, entry'.1) := assigns_registerText (h _ hmem)
  have hcomma : ∀ text ∈ entries.map registerText, ',' ∉ text.toList := by
    intro text htext
    obtain ⟨entry', hmem, rfl⟩ := List.mem_map.mp htext
    exact (hassigns entry' (.tail _ hmem)).comma_notMem
  rw [← pieces_eq_splitOn, List.map_cons,
    pieces_intercalate (hassigns entry (.head _)).comma_notMem hcomma, List.map_map]
  refine .cons ?_ (List.forall₂_map_left_iff.mpr (List.forall₂_map_right_iff.mpr
    (List.forall₂_same.mpr fun entry' hmem => ?_)))
  · simpa using Lists.assignment (List.forall_mem_nil _) (hassigns entry (.head _))
      (List.forall_mem_nil _)
  · have hspace : ∀ c ∈ [' '], isBlank c = true := List.forall_mem_singleton.mpr (by decide)
    simpa using Lists.assignment hspace (hassigns entry' (.tail _ hmem)) (List.forall_mem_nil _)

/-- A register file is read back from its text. -/
theorem ofAssignments_text (file : RegisterFile) : ofAssignments file.text.toList = .ok file := by
  have hlt : ∀ entry ∈ file.cells.toList.zipIdx, entry.2 < 8 := by
    intro entry hmem
    have hlt := (List.mem_zipIdx hmem).2.1
    rwa [Vector.length_toList, Nat.zero_add] at hlt
  have hlists : List.Forall₂ Lists (file.text.toList.splitOn ',')
      (file.cells.toList.zipIdx.map fun (value, n) => some (n, value)) := by
    obtain ⟨entry, entries, hentries⟩ : ∃ entry entries,
        file.cells.toList.zipIdx = entry :: entries := List.exists_cons_of_ne_nil (by simp)
    have htext : file.text =
        ", ".intercalate (file.cells.toList.zipIdx.map registerText) := rfl
    rw [hentries] at hlt htext ⊢
    rw [htext]
    exact lists_registerTexts hlt
  have hsaid : (file.cells.toList.zipIdx.map fun (value, n) => some (n, value)).reduceOption =
      file.cells.toList.zipIdx.map fun (value, n) => (n, value) := by
    simp only [List.reduceOption, List.filterMap_map]
    exact congrFun List.filterMap_eq_map' _
  rw [ofAssignments_eq, afterPieces_of_lists hlists, hsaid]
  refine congrArg Except.ok (ext_of_get fun r => ?_)
  rw [get_foldl_assign (List.forall_mem_map.mpr hlt), lookup_reverse_zipIdx, get,
    Vector.getElem?_toList]

/-! ### The main result -/

/-- **Assignment lists are read back.** Let the pieces of a list be blank or assignments, with any
blanks around them. Then the list is read as the register file in which every register holds the
value of the last assignment to it, or else zero. A list with any other piece is refused as a whole.
In particular the text of a register file is read back as the same file. -/
theorem ofAssignments_reads_back :
    (∀ pieces readings, List.Forall₂ Lists pieces readings →
      ∃ file, ofAssignments ([','].intercalate pieces) = .ok file ∧
        ∀ n, file.get n = (readings.reduceOption.reverse.lookup n).getD 0) ∧
      (∀ list, (∃ piece ∈ list.splitOn ',', ∀ said, ¬Lists piece said) →
        ∃ e, ofAssignments list = .error e) ∧
      ∀ file : RegisterFile, ofAssignments file.text.toList = .ok file := by
  refine ⟨fun _ _ => exists_ofAssignments, ?_, ofAssignments_text⟩
  rintro list ⟨piece, hmem, hpiece⟩
  rw [ofAssignments_eq]
  exact exists_error_of_not_lists hmem hpiece zero

/-- Pieces with blanks, leading zeros and both cases of the letter. The last one wins. -/
def respelledPieces : List (List Char) :=
  [" R7=007\t".toList, [], "r01=5".toList, " ".toList, "r7=65535".toList]

theorem ofAssignments_reads_back_respelled :
    List.Forall₂ Lists respelledPieces [some (7, 7), none, some (1, 5), none, some (7, 65535)] ∧
      (∃ file, ofAssignments " R7=007\t,,r01=5, ,r7=65535".toList = .ok file ∧
        file.get 0 = 0 ∧ file.get 1 = 5 ∧ file.get 7 = 65535) ∧
      (∀ said, ¬Lists "r8=1".toList said) ∧ ∃ e, ofAssignments "r1=5,r8=1".toList = .error e := by
  obtain ⟨hread, hrefused, -⟩ := ofAssignments_reads_back
  have hlists : List.Forall₂ Lists respelledPieces
      [some (7, 7), none, some (1, 5), none, some (7, 65535)] := by
    have hsome {piece : List Char} {reading : Nat × Word}
        (h : readAssignment (trim piece) = .ok reading) : Lists piece (some reading) :=
      lists_some_iff.mpr (readAssignment_eq_ok_iff.mp h)
    have hnone {piece : List Char} (h : trim piece = []) : Lists piece none := lists_none_iff.mpr h
    exact .cons (hsome (by decide)) (.cons (hnone (by decide)) (.cons (hsome (by decide))
      (.cons (hnone (by decide)) (.cons (hsome (by decide)) .nil))))
  have hnot (said : Option (Nat × Word)) : ¬Lists "r8=1".toList said := by
    cases said with
    | none => exact fun h => absurd (lists_none_iff.mp h) (by decide)
    | some reading =>
      intro h
      have hread := readAssignment_eq_ok_iff.mpr (lists_some_iff.mp h)
      rw [show readAssignment (trim "r8=1".toList) = .error (.noSuchRegister 8 "r8=1") by decide]
        at hread
      cases hread
  obtain ⟨file, hfile, hget⟩ := hread _ _ hlists
  refine ⟨hlists, ⟨file, hfile, ?_, ?_, ?_⟩, hnot, hrefused _ ⟨"r8=1".toList, by decide, hnot⟩⟩
  · rw [hget]
    rfl
  · rw [hget]
    rfl
  · rw [hget]
    rfl

end RegisterFile

end WordMachine
