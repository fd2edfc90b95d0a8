/-!
# Numerals

Numbers are written in decimal without leading zeros (`decimal`) and read with any number of them.
Only the digits of ASCII have a value. `unsigned?` also accepts one plus sign in front.
-/

namespace WordMachine.Text

/-- The decimal numeral of a number. -/
def decimal (n : Nat) : String := n.repr

/-- The value of a decimal digit. -/
def decimalValue? (c : Char) : Option Nat :=
  if '0' ≤ c ∧ c ≤ '9' then some (c.toNat - '0'.toNat) else none

/-- The value of a hexadecimal digit, in either case. -/
def hexadecimalValue? (c : Char) : Option Nat :=
  if '0' ≤ c ∧ c ≤ '9' then some (c.toNat - '0'.toNat)
  else if 'a' ≤ c ∧ c ≤ 'f' then some (c.toNat - 'a'.toNat + 10)
  else if 'A' ≤ c ∧ c ≤ 'F' then some (c.toNat - 'A'.toNat + 10)
  else none

/-- The number that extends `value` by the given digits; `none` if one of them has no value. -/
def digitsFrom? (base : Nat) (value? : Char → Option Nat) : Nat → List Char → Option Nat
  | value, [] => some value
  | value, c :: digits =>
    match value? c with
    | some d => digitsFrom? base value? (base * value + d) digits
    | none => none

/-- The value of a numeral of at least one digit. -/
def digits? (base : Nat) (value? : Char → Option Nat) (text : List Char) : Option Nat :=
  if text.isEmpty then none else digitsFrom? base value? 0 text

/-- The value of a numeral of at least one digit, with or without a plus sign in front. -/
def unsigned? (base : Nat) (value? : Char → Option Nat) (text : List Char) : Option Nat :=
  match text with
  | '+' :: digits => digits? base value? digits
  | digits => digits? base value? digits

/-- The value of a decimal numeral, with or without a plus sign in front. -/
def decimal? (text : List Char) : Option Nat := unsigned? 10 decimalValue? text

/-- The value of a hexadecimal numeral, with or without a plus sign in front. -/
def hexadecimal? (text : List Char) : Option Nat := unsigned? 16 hexadecimalValue? text

/-- A number that fits in a word. -/
def word? (value : Option Nat) : Option UInt16 :=
  value.bind fun n => if n < 65536 then some n.toUInt16 else none

/-- The word that a decimal numeral stands for, with or without a plus sign in front. -/
def decimalWord? (text : List Char) : Option UInt16 := word? (decimal? text)

/-- The word that a hexadecimal numeral stands for, with or without a plus sign in front. -/
def hexadecimalWord? (text : List Char) : Option UInt16 := word? (hexadecimal? text)

theorem word?_eq_some_iff {value : Option Nat} {w : UInt16} :
    word? value = some w ↔ value = some w.toNat := by
  cases value with
  | none => simp [word?]
  | some n =>
    by_cases h : n < 65536
    · simp only [word?, Option.bind_some, h, if_true, Option.some.injEq]
      constructor
      · rintro rfl
        simp [Nat.mod_eq_of_lt h]
      · rintro rfl
        simp
    · simp only [word?, Option.bind_some, h, if_false, Option.some.injEq]
      constructor
      · intro h'
        simp at h'
      · rintro rfl
        exact absurd w.toNat_lt h

end WordMachine.Text
