import Mathlib.Data.List.TakeWhile
import WordMachine.Proofs.Text.Numeral
import WordMachine.Text.Blank
import WordMachine.Text.DecimalDigit
import WordMachine.Text.WordCharacter

/-!
# Stretches of characters

Fields of a line are told apart by the classes of their characters. A **stretch** of a class is one
or more characters of it. Taking characters as long as they belong to a class splits a text behind
such a stretch exactly if the next character does not belong to it (`takeWhile_dropWhile_iff`), and
that is so between any two fields, since word characters, blanks and the marks of a line have
nothing in common. Only digits of ASCII are read as a word, however many scripts have digits of
their own (`decimalWord?_eq_some_iff_of_stretch`).
-/

namespace WordMachine.Text

variable {p : Char → Bool} {text body rest : List Char} {c : Char}

/-- One or more characters of a class. -/
structure Stretch (p : Char → Bool) (text : List Char) : Prop where
  ne_nil : text ≠ []
  all : ∀ c ∈ text, p c = true

instance (p : Char → Bool) (text : List Char) : Decidable (Stretch p text) :=
  decidable_of_iff (text ≠ [] ∧ text.all p = true)
    ⟨fun h => ⟨h.1, List.all_eq_true.mp h.2⟩, fun h => ⟨h.ne_nil, List.all_eq_true.mpr h.all⟩⟩

/-- The text does not begin with a character of the class. -/
def StopsBefore (p : Char → Bool) (text : List Char) : Prop := ∀ c ∈ text.head?, p c = false

theorem stopsBefore_cons (h : p c = false) (rest : List Char) : StopsBefore p (c :: rest) := by
  rintro _ ⟨⟩
  exact h

/-- The first of two texts decides, if there is anything in it. -/
theorem StopsBefore.append (h : StopsBefore p body) (hne : body ≠ []) (rest : List Char) :
    StopsBefore p (body ++ rest) := by
  obtain ⟨c, body, rfl⟩ := List.exists_cons_of_ne_nil hne
  exact stopsBefore_cons (h c rfl) (body ++ rest)

theorem stopsBefore_append (h : StopsBefore p body) (hrest : StopsBefore p rest) :
    StopsBefore p (body ++ rest) := by
  cases body with
  | nil => exact hrest
  | cons c body => exact stopsBefore_cons (h c rfl) (body ++ rest)

/-- A stretch of another class, none of which belongs to this one. -/
theorem Stretch.stopsBefore {q : Char → Bool} (h : Stretch q body)
    (hq : ∀ c, q c = true → p c = false) (rest : List Char) : StopsBefore p (body ++ rest) := by
  refine StopsBefore.append (fun c hc => hq c (h.all c ?_)) h.ne_nil rest
  exact List.mem_of_mem_head? hc

/-- A text is split at the first character outside of a class, and nowhere else. -/
theorem takeWhile_dropWhile_iff :
    text.takeWhile p = body ∧ text.dropWhile p = rest ↔
      text = body ++ rest ∧ (∀ c ∈ body, p c = true) ∧ StopsBefore p rest := by
  constructor
  · rintro ⟨rfl, rfl⟩
    refine ⟨List.takeWhile_append_dropWhile.symm, fun c => List.mem_takeWhile_imp, ?_⟩
    intro c hc
    have hnot := List.head?_dropWhile_not p text
    rw [Option.mem_def.mp hc] at hnot
    exact hnot
  · rintro ⟨rfl, hbody, hstops⟩
    rw [List.takeWhile_append_of_pos hbody, List.dropWhile_append_of_pos hbody]
    cases rest with
    | nil => simp
    | cons c rest =>
      have hc : ¬p c = true := by rw [hstops c rfl]; exact Bool.false_ne_true
      rw [List.takeWhile_cons_of_neg hc, List.dropWhile_cons_of_neg hc, List.append_nil]
      exact ⟨rfl, rfl⟩

/-- Two texts that begin with the same class of characters fall apart in the same way. -/
theorem append_inj_of_stopsBefore {body' rest' : List Char} (h : body ++ rest = body' ++ rest')
    (hbody : ∀ c ∈ body, p c = true) (hbody' : ∀ c ∈ body', p c = true)
    (hrest : StopsBefore p rest) (hrest' : StopsBefore p rest') : body = body' ∧ rest = rest' := by
  obtain ⟨htake, hdrop⟩ := takeWhile_dropWhile_iff.mpr ⟨rfl, hbody, hrest⟩
  obtain ⟨htake', hdrop'⟩ := takeWhile_dropWhile_iff.mpr ⟨rfl, hbody', hrest'⟩
  rw [h] at htake hdrop
  exact ⟨htake.symm.trans htake', hdrop.symm.trans hdrop'⟩

/-- Every text is split so. -/
theorem eq_takeWhile_append_dropWhile (p : Char → Bool) (text : List Char) :
    text = text.takeWhile p ++ text.dropWhile p ∧ (∀ c ∈ text.takeWhile p, p c = true) ∧
      StopsBefore p (text.dropWhile p) := takeWhile_dropWhile_iff.mp ⟨rfl, rfl⟩

theorem stretch_takeWhile (h : text.takeWhile p ≠ []) : Stretch p (text.takeWhile p) :=
  ⟨h, fun _ => List.mem_takeWhile_imp⟩

theorem stretch_takeWhile_of_head (h : text.head?.any p = true) : Stretch p (text.takeWhile p) := by
  refine stretch_takeWhile ?_
  cases text with
  | nil => cases h
  | cons c text =>
    have hc : p c = true := h
    rw [List.takeWhile_cons_of_pos hc]
    exact List.cons_ne_nil c _

theorem Stretch.head?_append (h : Stretch p body) (rest : List Char) :
    (body ++ rest).head?.any p = true := by
  obtain ⟨c, body, rfl⟩ := List.exists_cons_of_ne_nil h.ne_nil
  exact h.all c (.head _)

/-- A stretch is taken whole, and nothing of what is behind it. -/
theorem Stretch.takeWhile_dropWhile (h : Stretch p body) (hstops : StopsBefore p rest) :
    (body ++ rest).takeWhile p = body ∧ (body ++ rest).dropWhile p = rest :=
  takeWhile_dropWhile_iff.mpr ⟨rfl, h.all, hstops⟩

/-! ### Classes that have nothing in common -/

/-- Tables without a common range have no common member. -/
private theorem Ranges.covers_eq_false {table other : Ranges} (h : table.Ascending 0)
    (hother : other.Ascending 0)
    (hapart : ∀ range ∈ table, ∀ range' ∈ other, range.2 < range'.1 ∨ range'.2 < range.1) {n : Nat}
    (hn : table.covers n = true) : other.covers n = false := by
  by_contra hcovers
  rw [Bool.not_eq_false] at hcovers
  obtain ⟨range, hmem, hle, hge⟩ := (Ranges.covers_iff h n).mp hn
  obtain ⟨range', hmem', hle', hge'⟩ := (Ranges.covers_iff hother n).mp hcovers
  have := hapart range hmem range' hmem'
  omega

theorem isWordCharacter_eq_false (h : isBlank c = true) : isWordCharacter c = false :=
  Ranges.covers_eq_false blankRanges_ascending wordRanges_ascending (by decide +kernel) h

theorem isDecimalDigit_eq_false (h : isBlank c = true) : isDecimalDigit c = false :=
  Ranges.covers_eq_false blankRanges_ascending decimalDigitRanges_ascending (by decide +kernel) h

theorem isBlank_eq_false (h : c.isDigit = true) : isBlank c = false := by
  have hword : isWordCharacter c = true :=
    isWordCharacter_of_isAlphanum (by rw [Char.isAlphanum, h, Bool.or_true])
  refine Bool.eq_false_iff.mpr fun hblank => ?_
  rw [isWordCharacter_eq_false hblank] at hword
  cases hword

theorem isDigit_eq_false (h : isBlank c = true) : c.isDigit = false := by
  refine Bool.eq_false_iff.mpr fun hdigit => ?_
  rw [isBlank_eq_false hdigit] at h
  cases h

/-! ### Digits of every script -/

/-- Digits of another script do not stand for a word. -/
theorem decimalWord?_eq_some_iff_of_stretch {digits : List Char} {w : UInt16}
    (h : Stretch isDecimalDigit digits) :
    decimalWord? digits = some w ↔
      (∀ c ∈ digits, c.isDigit = true) ∧ number digits = w.toNat := by
  constructor
  · intro hread
    have hnumeral := decimalWord?_eq_some_iff_numeral.mp hread
    have hascii : ∀ c ∈ digits, c.isDigit = true := by
      -- A numeral may have a sign, but a sign is no digit of any script.
      generalize w.toNat = n at hnumeral
      cases hnumeral with
      | unsigned _ hdigits => exact fun c hc => isSome_decimalValue?_iff.mp (hdigits c hc)
      | signed _ _ => exact absurd (h.all '+' (.head _)) (by decide)
    exact ⟨hascii, (decimalWord?_eq_some_iff h.ne_nil hascii).mp hread⟩
  · rintro ⟨hascii, hnumber⟩
    exact (decimalWord?_eq_some_iff h.ne_nil hascii).mpr hnumber

end WordMachine.Text
