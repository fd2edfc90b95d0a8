import WordMachine.Text.Ranges

/-!
# Blank characters

The characters with the Unicode property `White_Space`. They separate the fields of a line, and
they are what trimming removes. Every blank of ASCII is among them.
-/

namespace WordMachine.Text

/-- The code points with the property `White_Space`. -/
def blankRanges : Ranges :=
  [(9, 13), (32, 32), (133, 133), (160, 160), (5760, 5760), (8192, 8202), (8232, 8233),
   (8239, 8239), (8287, 8287), (12288, 12288)]

/-- Whether a character is white space. -/
def isBlank (c : Char) : Bool := blankRanges.covers c.toNat

theorem blankRanges_ascending : blankRanges.Ascending 0 :=
  Ranges.ascending_iff.mp (by decide)

theorem isBlank_of_isWhitespace {c : Char} (h : c.isWhitespace = true) : isBlank c = true := by
  simp only [Char.isWhitespace, Bool.or_eq_true, decide_eq_true_eq] at h
  rcases h with ((rfl | rfl) | rfl) | rfl <;> decide

end WordMachine.Text
