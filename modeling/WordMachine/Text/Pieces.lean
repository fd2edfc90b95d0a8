import WordMachine.Text.Blank

/-!
# Cutting text into pieces

Texts are read as lists of characters. `pieces` cuts at every separator, `cutAt?` at the first one,
and `trim` removes the blanks on both sides.
-/

namespace WordMachine.Text

/-! ### Trimming -/

/-- The text without the blanks at its end. -/
def trimEnd (text : List Char) : List Char := (text.reverse.dropWhile isBlank).reverse

/-- The text without the blanks on both sides. -/
def trim (text : List Char) : List Char := trimEnd (text.dropWhile isBlank)

@[simp] theorem trim_nil : trim [] = [] := rfl

/-! ### Cutting -/

/-- The first piece of a text and the others, one more piece than there are separators. -/
def firstAndOtherPieces (separator : Char) (text : List Char) : List Char × List (List Char) :=
  text.foldr
    (fun c found => if c = separator then ([], found.1 :: found.2) else (c :: found.1, found.2))
    ([], [])

/-- The pieces of a text between its separators. -/
def pieces (separator : Char) (text : List Char) : List (List Char) :=
  (firstAndOtherPieces separator text).1 :: (firstAndOtherPieces separator text).2

@[simp] theorem pieces_nil (separator : Char) : pieces separator [] = [[]] := rfl

@[simp] theorem pieces_cons_self (separator : Char) (text : List Char) :
    pieces separator (separator :: text) = [] :: pieces separator text := by
  simp [pieces, firstAndOtherPieces]

theorem pieces_cons_of_ne {separator c : Char} (h : c ≠ separator) (text : List Char) :
    pieces separator (c :: text) =
      (c :: (firstAndOtherPieces separator text).1) :: (firstAndOtherPieces separator text).2 := by
  simp [pieces, firstAndOtherPieces, h]

theorem pieces_ne_nil (separator : Char) (text : List Char) : pieces separator text ≠ [] := by
  simp [pieces]

/-- What stands before and after the first separator, if there is one. -/
def cutAt? (separator : Char) (text : List Char) : Option (List Char × List Char) :=
  match text.dropWhile (· ≠ separator) with
  | [] => none
  | _ :: after => some (text.takeWhile (· ≠ separator), after)

/-- What follows the given beginning of a text, if the text begins so. -/
def after? : List Char → List Char → Option (List Char)
  | [], text => some text
  | _ :: _, [] => none
  | b :: beginning, c :: text => if b = c then after? beginning text else none

theorem after?_eq_some_iff {beginning text rest : List Char} :
    after? beginning text = some rest ↔ text = beginning ++ rest := by
  induction beginning generalizing text with
  | nil => simp [after?]
  | cons b beginning ih =>
    cases text with
    | nil => simp [after?]
    | cons c text =>
      by_cases h : b = c
      · simp [after?, h, ih]
      · simp [after?, h, Ne.symm h]

end WordMachine.Text
