/-!
# Columns

A column of a given width is filled with spaces. Its width counts characters, and a text that is
too long is written whole.
-/

namespace WordMachine.Text

/-- `width` spaces. -/
def spaces (width : Nat) : String := String.ofList (List.replicate width ' ')

/-- A text at the right end of a column. -/
def alignRight (width : Nat) (text : String) : String := spaces (width - text.length) ++ text

/-- A text at the left end of a column. -/
def alignLeft (width : Nat) (text : String) : String := text ++ spaces (width - text.length)

@[simp] theorem length_spaces (width : Nat) : (spaces width).length = width := by
  simp [spaces]

theorem alignRight_zero (text : String) : alignRight 0 text = text := by
  simp [alignRight, spaces]

@[simp] theorem length_alignRight (width : Nat) (text : String) :
    (alignRight width text).length = max width text.length := by
  simp only [alignRight, String.length_append, length_spaces]
  omega

@[simp] theorem length_alignLeft (width : Nat) (text : String) :
    (alignLeft width text).length = max width text.length := by
  simp only [alignLeft, String.length_append, length_spaces]
  omega

end WordMachine.Text
