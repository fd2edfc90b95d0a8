import WordMachine.Text.Pieces
import WordMachine.Text.Utf8

/-!
# Lines of a text

Lines end at a line feed. A text that ends with one has no further, empty line after it. `readLines`
hands the trimmed lines to a reader one after the other and stops at the first that it refuses; the
failure carries the **number** of that line, counted from one. `lineSpan` finds the bytes of a line
again from its number.
-/

namespace WordMachine.Text

/-- The lines of a text, without their line feeds. -/
def lines (text : List Char) : List (List Char) :=
  let found := pieces '\n' text
  if found.getLast? = some [] then found.dropLast else found

@[simp] theorem lines_nil : lines [] = [] := rfl

/-- Line `number` of a text, counted from one. -/
def lineAt? (text : List Char) (number : Nat) : Option (List Char) :=
  if number = 0 then none else (lines text)[number - 1]?

/-- A stretch of a text, in bytes. -/
structure Span where
  /-- The number of bytes before it. -/
  offset : Nat
  /-- The number of bytes in it. -/
  length : Nat
  deriving DecidableEq, Repr

/-- The line without the carriage returns at its end. -/
def withoutReturns (line : List Char) : List Char :=
  (line.reverse.dropWhile (· = '\r')).reverse

/-- The bytes of line `number`, counted from one, without its line feed and the carriage returns
before it. If there is no such line, this is the empty stretch at the end of the text. -/
def lineSpan (text : List Char) (number : Nat) : Span :=
  match lineAt? text number with
  | some line =>
    { offset := ((lines text).take (number - 1)).foldr
        (fun line bytes => utf8Length line + 1 + bytes) 0
      length := utf8Length (withoutReturns line) }
  | none => { offset := utf8Length text, length := 0 }

/-- A failure with the number of the line that caused it. -/
structure AtLine (ε : Type) where
  /-- The number of the line, counted from one. -/
  line : Nat
  /-- Why the line was refused. -/
  cause : ε
  deriving DecidableEq, Repr

/-- Runs `read` over lines numbered from `number` on. -/
def readLinesFrom {σ ε : Type} (read : σ → List Char → Except ε σ) :
    Nat → σ → List (List Char) → Except (AtLine ε) σ
  | _, state, [] => .ok state
  | number, state, line :: rest =>
    match read state (trim line) with
    | .ok state => readLinesFrom read (number + 1) state rest
    | .error cause => .error ⟨number, cause⟩

/-- Runs `read` over the trimmed lines of a text. -/
def readLines {σ ε : Type} (read : σ → List Char → Except ε σ) (start : σ) (text : List Char) :
    Except (AtLine ε) σ :=
  readLinesFrom read 1 start (lines text)

theorem readLinesFrom_append {σ ε : Type} (read : σ → List Char → Except ε σ) (number : Nat)
    (state : σ) (first second : List (List Char)) :
    readLinesFrom read number state (first ++ second) =
      (readLinesFrom read number state first).bind fun state =>
        readLinesFrom read (number + first.length) state second := by
  induction first generalizing number state with
  | nil => rfl
  | cons line first ih =>
    simp only [List.cons_append, readLinesFrom, List.length_cons]
    cases read state (trim line) with
    | ok state => simp only [ih, Nat.add_assoc, Nat.add_comm 1]
    | error cause => rfl

end WordMachine.Text
