import WordMachine.Text.Utf8

/-!
# Bytes made visible

Bytes from space to tilde are **printable** and stand for themselves. `escapedByte` writes any other
byte as a backslash and two hexadecimal digits. `quotedByte` writes the character with the byte's
number between apostrophes, and spells out the characters that would not show.
-/

namespace WordMachine.Text

/-- Whether a byte is a visible character of ASCII or the space. -/
def isPrintable (b : UInt8) : Bool := 0x20 ≤ b && b ≤ 0x7E

/-- The character with the number of a byte. -/
def byteCharacter (b : UInt8) : Char := Char.ofNat b.toNat

/-- The lower-case hexadecimal numeral of a number below 256, without leading zeros. -/
def shortHexadecimal (b : UInt8) : String := String.ofList (Nat.toDigits 16 b.toNat)

/-- The two lower-case hexadecimal digits of a byte. -/
def hexadecimalPair (b : UInt8) : String :=
  String.ofList [Nat.digitChar (b.toNat / 16), Nat.digitChar (b.toNat % 16)]

/-- A printable byte as its character, any other byte as a backslash and two hexadecimal digits. -/
def escapedByte (b : UInt8) : String :=
  if isPrintable b then (byteCharacter b).toString else "\\" ++ hexadecimalPair b

/-- Whether the character with the number of a byte shows as itself: it is neither a control
character, nor the no-break space, nor the soft hyphen. -/
def isVisible (b : UInt8) : Bool :=
  isPrintable b || (0xA1 ≤ b && b != 0xAD)

/-- The character with the number of a byte, between apostrophes. -/
def quotedByte (b : UInt8) : String :=
  let body :=
    match byteCharacter b with
    | '\x00' => "\\0"
    | '\t' => "\\t"
    | '\n' => "\\n"
    | '\r' => "\\r"
    | '\'' => "\\'"
    | '\\' => "\\\\"
    | c => if isVisible b then c.toString else "\\u\x7b" ++ shortHexadecimal b ++ "\x7d"
  "'" ++ body ++ "'"

end WordMachine.Text
