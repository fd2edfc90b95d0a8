import WordMachine.Memory.Override
import WordMachine.Proofs.Memory.Replay
import WordMachine.Proofs.Text.Line

/-!
# What an override list does

A piece of the list is good if it **overrides** a word (`Memory.Overrides`): its first equals sign
stands between the numerals of an address in memory and of a word. The good pieces before the first
bad one are stores that are replayed, and the rest of the list has no effect
(`overrideEach_append_of_overrides`, `overrideEach_of_refused`). So the list of two texts with a
comma between them does what the two lists do one after the other, unless the first one fails
(`override_exact`).
-/

namespace WordMachine

open Text

namespace Memory

/-! ### One piece -/

/-- The piece **overrides** the word at an address. What stands before its first equals sign is the
decimal numeral of the address, but for blanks around it, and what stands behind it is that of the
word. The address lies in memory. -/
inductive Overrides : List Char → Word × Word → Prop
  | intro {before behind : List Char} {address value : Word} (hfirst : '=' ∉ before)
      (haddress : Numeral 10 decimalValue? (trim before) address.toNat)
      (hvalue : Numeral 10 decimalValue? (trim behind) value.toNat) (hholds : Holds address) :
    Overrides (before ++ '=' :: behind) (address, value)

variable {memory : Memory} {piece : List Char} {good rest : List (List Char)}
  {reading : Word × Word} {readings : List (Word × Word)}

theorem readOverride_eq_ok_iff : readOverride piece = .ok reading ↔ Overrides piece reading := by
  constructor
  · intro h
    rw [readOverride] at h
    split at h
    · cases h
    · next before behind hcut =>
      obtain ⟨rfl, hfirst⟩ := cutAt?_eq_some_iff.mp hcut
      split at h
      · cases h
      · cases h
      · next address value haddress hvalue =>
        split at h
        · next hholds =>
          cases h
          exact .intro hfirst (decimalWord?_eq_some_iff_numeral.mp haddress)
            (decimalWord?_eq_some_iff_numeral.mp hvalue) hholds
        · cases h
  · rintro ⟨hfirst, haddress, hvalue, hholds⟩
    rw [readOverride, cutAt?_append hfirst]
    simp only [decimalWord?_eq_some_iff_numeral.mpr haddress,
      decimalWord?_eq_some_iff_numeral.mpr hvalue, if_pos hholds]

example : readOverride " 5=+07 ".toList = .ok (5, 7) := by decide

private theorem Overrides.holds (h : Overrides piece reading) : Holds reading.1 := by
  cases h with
  | intro _ _ _ hholds => exact hholds

/-! ### Pieces one after the other -/

/-- The good pieces in front of others are stores that are replayed. -/
theorem overrideEach_append_of_overrides (h : List.Forall₂ Overrides good readings)
    (memory : Memory) (rest : List (List Char)) :
    memory.overrideEach (good ++ rest) = (memory.replay readings).overrideEach rest := by
  induction h generalizing memory with
  | nil => rfl
  | @cons piece reading _ _ hpiece _ ih =>
    rw [List.cons_append, overrideEach, readOverride_eq_ok_iff.mpr hpiece]
    exact ih (memory.put reading.1 reading.2)

/-- Nothing is done from a bad piece on. -/
theorem overrideEach_of_refused (h : ∀ bad ∈ rest.head?, ∀ reading, ¬Overrides bad reading)
    (memory : Memory) : (memory.overrideEach rest).1 = memory ∧
      ((memory.overrideEach rest).2 = .ok () ↔ rest = []) := by
  cases rest with
  | nil => exact ⟨rfl, by simp [overrideEach]⟩
  | cons bad rest =>
    rw [overrideEach]
    split
    · next hread => exact absurd (readOverride_eq_ok_iff.mp hread) (h bad rfl _)
    · exact ⟨rfl, by simp⟩

/-- Any pieces are good ones up to the first bad one. -/
private theorem exists_good_rest (pieces : List (List Char)) :
    ∃ good readings rest, pieces = good ++ rest ∧ List.Forall₂ Overrides good readings ∧
      ∀ bad ∈ rest.head?, ∀ reading, ¬Overrides bad reading := by
  induction pieces with
  | nil => exact ⟨[], [], [], rfl, .nil, nofun⟩
  | cons piece pieces ih =>
    by_cases hpiece : ∃ reading, Overrides piece reading
    · obtain ⟨reading, hreading⟩ := hpiece
      obtain ⟨good, readings, rest, rfl, hgood, hrest⟩ := ih
      exact ⟨piece :: good, reading :: readings, rest, rfl, .cons hreading hgood, hrest⟩
    · refine ⟨[], [], piece :: pieces, rfl, .nil, ?_⟩
      rintro _ ⟨⟩ reading hreading
      exact hpiece ⟨reading, hreading⟩

theorem overrideEach_append (memory : Memory) (first second : List (List Char)) :
    memory.overrideEach (first ++ second) =
      match memory.overrideEach first with
      | (after, .ok ()) => after.overrideEach second
      | failed => failed := by
  induction first generalizing memory with
  | nil => rfl
  | cons piece first ih =>
    rw [List.cons_append, overrideEach, overrideEach]
    cases readOverride piece with
    | ok reading => exact ih _
    | error e => rfl

/-! ### The main result -/

private theorem overridePieces_eq (list : List Char) :
    overridePieces list = (list.splitOn ',').filter (· ≠ []) := by
  rw [overridePieces, pieces_eq_splitOn]
  refine List.filter_congr fun piece _ => ?_
  cases piece <;> rfl

theorem overridePieces_append (first second : List Char) :
    overridePieces (first ++ ',' :: second) = overridePieces first ++ overridePieces second := by
  rw [overridePieces, pieces_append_separator, List.filter_append, overridePieces, overridePieces]

/-- **Overrides apply in order up to the first bad piece.** The pieces of an override list are what
stands between its commas and is not empty. The list is accepted exactly if all of them are good.
Afterwards every address holds the value that the last piece for it gave it, among the good pieces
before the first bad one, and any other cell is as it was.

The list of two texts with a comma between them does what the first one does, and then, unless that
failed, what the second one does. -/
theorem override_exact (memory : Memory) (list : List Char) :
    let pieces := (list.splitOn ',').filter (· ≠ [])
    let outcome := memory.override list
    (outcome.2 = .ok () ↔ ∀ piece ∈ pieces, ∃ reading, Overrides piece reading) ∧
      (∃ good readings rest, pieces = good ++ rest ∧ List.Forall₂ Overrides good readings ∧
        (∀ bad ∈ rest.head?, ∀ reading, ¬Overrides bad reading) ∧
        ∀ address, outcome.1.read address =
          (readings.reverse.lookup address).elim (memory.read address) .ok) ∧
      ∀ more, memory.override (list ++ ',' :: more) =
        match outcome with
        | (after, .ok ()) => after.override more
        | failed => failed := by
  intro pieces outcome
  obtain ⟨good, readings, rest, hpieces, hgood, hrest⟩ := exists_good_rest pieces
  have houtcome : outcome = (memory.replay readings).overrideEach rest := by
    have hlist : outcome = memory.overrideEach pieces :=
      congrArg memory.overrideEach (overridePieces_eq list)
    rw [hlist, hpieces, overrideEach_append_of_overrides hgood]
  obtain ⟨hmemory, hresult⟩ := overrideEach_of_refused hrest (memory.replay readings)
  have hholds : ∀ reading ∈ readings, Holds reading.1 := by
    intro reading hreading
    obtain ⟨piece, -, hpiece⟩ := exists_line_of_mem hgood hreading
    exact hpiece.holds
  refine ⟨?_, ⟨good, readings, rest, hpieces, hgood, hrest, fun address => ?_⟩, fun more => ?_⟩
  · rw [houtcome, hresult]
    constructor
    · rintro rfl piece hpiece
      rw [hpieces, List.append_nil] at hpiece
      obtain ⟨reading, -, hreading⟩ := exists_reading_of_mem hgood hpiece
      exact ⟨reading, hreading⟩
    · intro hall
      cases rest with
      | nil => rfl
      | cons bad rest =>
        obtain ⟨reading, hreading⟩ := hall bad (by simp [hpieces])
        exact absurd hreading (hrest bad rfl reading)
  · rw [houtcome, hmemory, read_replay hholds]
  · rw [override, overridePieces_append, overrideEach_append]
    rfl

end Memory

end WordMachine
