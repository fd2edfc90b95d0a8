import Mathlib.Data.Nat.Digits.Defs
import WordMachine.Text.Numeral

/-!
# What numerals stand for

Reading a numeral from left to right gives the number that its digits stand for, in any base
(`unsigned?_eq_some_iff`), however many zeros it starts with. A word is read exactly if that number
is below 65536 (`decimalWord?_eq_some_iff`). The numeral that is written for a word consists of at
most five digits (`length_decimal_le`) and is read as that word (`decimalWord?_decimal`).
-/

namespace WordMachine.Text

/-! ### Numerals in any base -/

section AnyBase

variable {base n : Nat} {value? : Char → Option Nat} {text : List Char}

/-- The number that digits stand for in a base. -/
def numberIn (base : Nat) (value? : Char → Option Nat) (digits : List Char) : Nat :=
  Nat.ofDigits base (digits.reverse.map fun c => (value? c).getD 0)

/-- A **numeral** consists of one or more digits, with or without a plus sign in front. -/
inductive Numeral (base : Nat) (value? : Char → Option Nat) : List Char → Nat → Prop
  | unsigned {digits : List Char} (hne : digits ≠ [])
    (hdigits : ∀ c ∈ digits, (value? c).isSome = true) :
    Numeral base value? digits (numberIn base value? digits)
  | signed {digits : List Char} (hne : digits ≠ [])
    (hdigits : ∀ c ∈ digits, (value? c).isSome = true) :
    Numeral base value? ('+' :: digits) (numberIn base value? digits)

/-- The first digit counts most. -/
private theorem ofDigits_reverse_cons (value : Char → Nat) (c : Char) (digits : List Char) :
    Nat.ofDigits base ((c :: digits).reverse.map value) =
      base ^ digits.length * value c + Nat.ofDigits base (digits.reverse.map value) := by
  rw [List.reverse_cons, List.map_append, Nat.ofDigits_append, List.length_map,
    List.length_reverse, List.map_singleton, Nat.ofDigits_singleton, Nat.add_comm]

theorem numberIn_cons (c : Char) (digits : List Char) :
    numberIn base value? (c :: digits) =
      base ^ digits.length * (value? c).getD 0 + numberIn base value? digits :=
  ofDigits_reverse_cons _ c digits

/-- The digits that are still to be read stand for what is added to the value so far. -/
theorem digitsFrom?_eq_some_iff (value : Nat) :
    digitsFrom? base value? value text = some n ↔
      (∀ c ∈ text, (value? c).isSome = true) ∧
        base ^ text.length * value + numberIn base value? text = n := by
  induction text generalizing value with
  | nil => simp [digitsFrom?, numberIn]
  | cons c text ih =>
    rw [digitsFrom?]
    cases hc : value? c with
    | none => simp [hc]
    | some d =>
      have hvalue : base ^ text.length * (base * value + d) =
          base ^ (c :: text).length * value + base ^ text.length * d := by
        rw [List.length_cons]
        ring
      dsimp only
      rw [ih, numberIn_cons, hc, hvalue, List.forall_mem_cons, Option.getD_some, Nat.add_assoc]
      simp [hc]

theorem digits?_eq_some_iff :
    digits? base value? text = some n ↔
      text ≠ [] ∧ (∀ c ∈ text, (value? c).isSome = true) ∧ numberIn base value? text = n := by
  cases text with
  | nil => simp [digits?]
  | cons c text =>
    rw [digits?, if_neg (by simp), digitsFrom?_eq_some_iff, Nat.mul_zero, Nat.zero_add]
    simp

/-- Exactly the numerals are read, unless the plus sign is a digit itself. -/
theorem unsigned?_eq_some_iff (hplus : value? '+' = none) :
    unsigned? base value? text = some n ↔ Numeral base value? text n := by
  constructor
  · intro h
    unfold unsigned? at h
    split at h
    · obtain ⟨hne, hdigits, rfl⟩ := digits?_eq_some_iff.mp h
      exact .signed hne hdigits
    · obtain ⟨hne, hdigits, rfl⟩ := digits?_eq_some_iff.mp h
      exact .unsigned hne hdigits
  · rintro (⟨hne, hdigits⟩ | ⟨hne, hdigits⟩)
    · rw [unsigned?]
      · exact digits?_eq_some_iff.mpr ⟨hne, hdigits, rfl⟩
      · rintro rest rfl
        have hsome := hdigits '+' (.head _)
        rw [hplus] at hsome
        cases hsome
    · exact digits?_eq_some_iff.mpr ⟨hne, hdigits, rfl⟩

end AnyBase

section Words

variable {text : List Char} {w : UInt16}

theorem decimalWord?_eq_some_iff_numeral :
    decimalWord? text = some w ↔ Numeral 10 decimalValue? text w.toNat := by
  rw [decimalWord?, word?_eq_some_iff, decimal?, unsigned?_eq_some_iff (by decide)]

theorem hexadecimalWord?_eq_some_iff_numeral :
    hexadecimalWord? text = some w ↔ Numeral 16 hexadecimalValue? text w.toNat := by
  rw [hexadecimalWord?, word?_eq_some_iff, hexadecimal?, unsigned?_eq_some_iff (by decide)]

end Words

/-! ### Decimal numerals -/

/-- The value of a digit of ASCII. -/
def digitValue (c : Char) : Nat := c.toNat - '0'.toNat

/-- The number that digits of ASCII stand for in base ten. -/
def number (digits : List Char) : Nat := Nat.ofDigits 10 (digits.reverse.map digitValue)

variable {c : Char} {digits : List Char} {w : UInt16}

private theorem decimalValue?_of_isDigit (h : c.isDigit = true) :
    decimalValue? c = some (digitValue c) := by
  rw [Char.isDigit, Bool.and_eq_true, decide_eq_true_iff, decide_eq_true_iff] at h
  exact if_pos h

theorem isSome_decimalValue?_iff : (decimalValue? c).isSome = true ↔ c.isDigit = true := by
  constructor
  · intro h
    rw [decimalValue?] at h
    split at h
    · next hdigit =>
      rw [Char.isDigit, Bool.and_eq_true, decide_eq_true_iff, decide_eq_true_iff]
      exact hdigit
    · cases h
  · intro h
    rw [decimalValue?_of_isDigit h, Option.isSome_some]

theorem numberIn_ten (h : ∀ c ∈ digits, c.isDigit = true) :
    numberIn 10 decimalValue? digits = number digits := by
  have hvalues : ∀ c ∈ digits.reverse, (decimalValue? c).getD 0 = digitValue c := by
    intro c hc
    rw [decimalValue?_of_isDigit (h c (List.mem_reverse.mp hc)), Option.getD_some]
  rw [numberIn, List.map_congr_left hvalues, number]

/-- A numeral of digits alone is read as the number that they stand for. -/
private theorem decimal?_eq (hne : digits ≠ []) (h : ∀ c ∈ digits, c.isDigit = true) :
    decimal? digits = some (number digits) := by
  rw [decimal?, unsigned?_eq_some_iff (by decide), ← numberIn_ten h]
  exact .unsigned hne fun c hc => isSome_decimalValue?_iff.mpr (h c hc)

/-- A word is read if the number is small enough to be one. -/
theorem decimalWord?_eq_some_iff (hne : digits ≠ []) (h : ∀ c ∈ digits, c.isDigit = true) :
    decimalWord? digits = some w ↔ number digits = w.toNat := by
  rw [decimalWord?, word?_eq_some_iff, decimal?_eq hne h, Option.some.injEq]

example : decimalWord? ['0', '0', '4', '2'] = some 42 := by decide

/-! ### Numerals as they are written -/

theorem toList_decimal (n : Nat) : (decimal n).toList = Nat.toDigits 10 n := by
  rw [decimal, Nat.repr_eq_ofList_toDigits, String.toList_ofList]

theorem isDigit_of_mem_decimal {n : Nat} (h : c ∈ (decimal n).toList) : c.isDigit = true := by
  rw [toList_decimal] at h
  exact Nat.isDigit_of_mem_toDigits (by decide) (by decide) h

private theorem ofDigitChars_eq_number (digits : List Char) :
    Nat.ofDigitChars 10 digits 0 = number digits := by
  induction digits with
  | nil => rfl
  | cons c digits ih =>
    rw [Nat.ofDigitChars_cons, Nat.ofDigitChars_eq_ofDigitChars_zero, ih, number, number,
      ofDigits_reverse_cons, Nat.mul_zero, Nat.zero_add]
    rfl

theorem number_decimal (n : Nat) : number (decimal n).toList = n := by
  rw [toList_decimal, ← ofDigitChars_eq_number, Nat.ofDigitChars_ten_toDigits]

theorem decimal_injective : Function.Injective decimal := fun n m h => by
  rw [← number_decimal n, h, number_decimal]

/-- A numeral is read as the number that it was written for. -/
theorem decimal?_decimal (n : Nat) : decimal? (decimal n).toList = some n := by
  have hne : (decimal n).toList ≠ [] := by
    rw [toList_decimal]
    exact Nat.toDigits_ne_nil
  rw [decimal?_eq hne fun _ => isDigit_of_mem_decimal, number_decimal]

theorem decimalWord?_decimal (w : UInt16) : decimalWord? (decimal w.toNat).toList = some w := by
  rw [decimalWord?, decimal?_decimal, word?_eq_some_iff]

/-- The numeral of a word fits in a column of five. -/
theorem length_decimal_le (w : UInt16) : (decimal w.toNat).length ≤ 5 := by
  rw [← String.length_toList, toList_decimal, Nat.length_toDigits_le_iff (by decide) (by decide)]
  have := w.toNat_lt
  omega

end WordMachine.Text
