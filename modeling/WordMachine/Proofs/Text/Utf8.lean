import WordMachine.Text.Utf8

/-!
# The bytes of a text

A text has as many bytes as its length in bytes says (`length_utf8_ofList`); a character has one to
four of them. Different texts have different bytes (`utf8_injective`).
-/

namespace WordMachine.Text

theorem length_utf8_toString (c : Char) : (utf8 c.toString).length = c.utf8Size := by
  simp [utf8, Char.toString, List.utf8Encode_singleton]

theorem utf8_injective : Function.Injective utf8 := fun _ _ h =>
  String.toByteArray_inj.mp (ByteArray.ext (Array.toList_inj.mp h))

/-- A text has as many bytes as its length in bytes says. -/
theorem length_utf8_ofList (text : List Char) :
    (utf8 (String.ofList text)).length = utf8Length text := by
  induction text with
  | nil => rfl
  | cons c text ih =>
    rw [utf8_ofList_cons, List.length_append, ih, utf8Length_cons, length_utf8_toString]

end WordMachine.Text
