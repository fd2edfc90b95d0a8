/-!
# UTF-8

The bytes of a text, and the characters that a byte string spells. `scalar` reads one character at
the head of a byte string. Where the bytes are not well formed it takes the longest beginning of a
well-formed character, at least one byte, and that stretch spells nothing. `spelled` reads a
whole byte string so, `text?` wants every stretch to spell a character, and `lossyText` writes
U+FFFD for each one that does not.
-/

namespace WordMachine.Text

/-- The bytes of a text. -/
def utf8 (text : String) : List UInt8 := text.toUTF8.data.toList

@[simp] theorem utf8_empty : utf8 "" = [] := rfl

@[simp] theorem utf8_append (first second : String) :
    utf8 (first ++ second) = utf8 first ++ utf8 second := by
  rw [utf8, String.toUTF8, String.toByteArray_append, ByteArray.data_append, Array.toList_append]
  rfl

theorem utf8_ofList_cons (c : Char) (text : List Char) :
    utf8 (String.ofList (c :: text)) = utf8 c.toString ++ utf8 (String.ofList text) := by
  rw [← utf8_append]
  congr 1
  rw [← String.toList_inj]
  simp [Char.toString]

/-- The number of bytes of a text. -/
def utf8Length (text : List Char) : Nat := text.foldr (fun c bytes => c.utf8Size + bytes) 0

@[simp] theorem utf8Length_nil : utf8Length [] = 0 := rfl

@[simp] theorem utf8Length_cons (c : Char) (text : List Char) :
    utf8Length (c :: text) = c.utf8Size + utf8Length text := by
  simp [utf8Length]

@[simp] theorem utf8Length_append (first second : List Char) :
    utf8Length (first ++ second) = utf8Length first + utf8Length second := by
  induction first with
  | nil => simp
  | cons c first ih => simp [ih, Nat.add_assoc]

/-- What a first byte above ASCII announces: its share of the value, the bounds of the next byte,
and how many bytes follow after that one. -/
structure Opening where
  /-- The high bits of the value. -/
  value : Nat
  /-- The least second byte. -/
  low : UInt8
  /-- The greatest second byte. -/
  high : UInt8
  /-- The number of bytes after the second. -/
  more : Nat

/-- The opening that a first byte announces. The bounds of the second byte leave out overlong
forms, surrogates and values above U+10FFFF. -/
def Opening.ofByte? (b : UInt8) : Option Opening :=
  let n := b.toNat
  if 0xC2 ≤ n ∧ n ≤ 0xDF then some ⟨n - 0xC0, 0x80, 0xBF, 0⟩
  else if n = 0xE0 then some ⟨0, 0xA0, 0xBF, 1⟩
  else if n = 0xED then some ⟨0xD, 0x80, 0x9F, 1⟩
  else if 0xE1 ≤ n ∧ n ≤ 0xEF then some ⟨n - 0xE0, 0x80, 0xBF, 1⟩
  else if n = 0xF0 then some ⟨0, 0x90, 0xBF, 2⟩
  else if 0xF1 ≤ n ∧ n ≤ 0xF3 then some ⟨n - 0xF0, 0x80, 0xBF, 2⟩
  else if n = 0xF4 then some ⟨4, 0x80, 0x8F, 2⟩
  else none

/-- Reads the byte that an opening asks for and `opening.more` further ones. Gives the value, if
all are there, and the number of bytes read. -/
def continuation (value : Nat) (low high : UInt8) : Nat → List UInt8 → Option Nat × Nat
  | _, [] => (none, 0)
  | more, b :: rest =>
    if low ≤ b ∧ b ≤ high then
      let value := 64 * value + (b.toNat - 0x80)
      match more with
      | 0 => (some value, 1)
      | more + 1 =>
        let (found, used) := continuation value 0x80 0xBF more rest
        (found, used + 1)
    else (none, 0)

/-- The character at the head of a byte string that starts with `b`, if it is well formed, and the
number of bytes of `rest` that belong to it. -/
def scalar (b : UInt8) (rest : List UInt8) : Option Char × Nat :=
  if b < 0x80 then (some (Char.ofNat b.toNat), 0)
  else
    match Opening.ofByte? b with
    | none => (none, 0)
    | some opening =>
      let (found, used) := continuation opening.value opening.low opening.high opening.more rest
      (found.map Char.ofNat, used)

/-- The stretches of a byte string, each as the character that it spells or as `none`. -/
def spelled : List UInt8 → List (Option Char)
  | [] => []
  | b :: rest => (scalar b rest).1 :: spelled (rest.drop (scalar b rest).2)
termination_by bytes => bytes.length
decreasing_by
  simp only [List.length_drop, List.length_cons]
  omega

/-- The text that a well-formed byte string spells. -/
def text? (bytes : List UInt8) : Option (List Char) := (spelled bytes).mapM id

/-- The text of a byte string, with U+FFFD for each stretch that is not well formed. -/
def lossyText (bytes : List UInt8) : List Char :=
  (spelled bytes).map (·.getD (Char.ofNat 0xFFFD))

end WordMachine.Text
