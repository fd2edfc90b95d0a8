import WordMachine.Text.Line
import WordMachine.Text.Numeral

/-!
# Diagnostics

A diagnostic about a text file names the kind of fault by its `code`, says what is wrong and how to
mend it, and points at the bytes of one line.
-/

namespace WordMachine

open Text

/-- A stretch of a text with a remark on it. -/
structure Label where
  /-- The bytes that the remark is about. -/
  span : Span
  /-- The remark. -/
  text : String
  deriving DecidableEq, Repr

/-- A fault in a text file. -/
structure Diagnostic where
  /-- The kind of fault. -/
  code : String
  /-- What is wrong, and in which line. -/
  message : String
  /-- What would be right. -/
  help : String
  /-- The line at fault. -/
  label : Label
  /-- The name of the file. -/
  origin : String
  deriving DecidableEq, Repr

/-- The fixed words that go with one kind of fault. -/
structure Diagnostic.Kind where
  /-- The kind of fault. -/
  code : String
  /-- What would be right. -/
  help : String
  /-- The remark on the line at fault. -/
  label : String
  deriving DecidableEq, Repr

/-- The diagnostic for a fault in line `number` of `text`. -/
def Diagnostic.atLine (origin : String) (text : List Char) (number : Nat) (kind : Diagnostic.Kind)
    (complaint : String) : Diagnostic where
  code := kind.code
  message := complaint ++ " (line " ++ decimal number ++ ")"
  help := kind.help
  label := ⟨lineSpan text number, kind.label⟩
  origin := origin

end WordMachine
