import WordMachine.Opcode
import WordMachine.Text.Escape

/-!
# Program images

An **image** is a program as a word array that fits into memory. Its bytes are the words in order,
low byte first. Images hold strings: a word with the length, then one word for each character.
-/

namespace WordMachine

open Text

/-- Why there is no image or no string. -/
inductive ImageError
  /-- Half a word is left over. -/
  | misaligned (bytes : Nat)
  /-- The words do not fit into memory. -/
  | tooLarge (words : Nat)
  /-- The address lies past the end of the image. -/
  | outOfBounds (address : Nat)
  deriving DecidableEq, Repr

/-- The wording of an image error. -/
def ImageError.message : ImageError → String
  | misaligned bytes => "Image is not aligned to 16 bits (" ++ decimal bytes ++ " bytes)"
  | tooLarge words => "Image of " ++ decimal words ++ " words does not fit in memory"
  | outOfBounds address => "Address " ++ decimal address ++ " is past end of image"

/-- A program that fits into memory. -/
structure Image where
  /-- The words from address 0 on. -/
  words : Array Word
  /-- They fit into memory. -/
  size_le : words.size ≤ memorySize

namespace Image

/-- The image of the given words. -/
def ofWords (words : Array Word) : Except ImageError Image :=
  if h : words.size ≤ memorySize then .ok ⟨words, h⟩ else .error (.tooLarge words.size)

/-- The word of a low and a high byte. -/
def wordOfBytes (low high : UInt8) : Word := UInt16.ofNat (low.toNat + 256 * high.toNat)

/-- The low and the high byte of a word. -/
def bytesOfWord (w : Word) : List UInt8 := [w.toUInt8, UInt8.ofNat (w.toNat / 256)]

/-- The words that an even number of bytes stand for. -/
def wordsOfBytes (bytes : Array UInt8) : Array Word :=
  Array.ofFn fun k : Fin (bytes.size / 2) => wordOfBytes bytes[2 * k.val] bytes[2 * k.val + 1]

/-- The image of the given bytes. -/
def ofBytes (bytes : Array UInt8) : Except ImageError Image :=
  if bytes.size % 2 = 0 then ofWords (wordsOfBytes bytes) else .error (.misaligned bytes.size)

/-- The word at an address. -/
def word (image : Image) (address : Nat) : Except ImageError Word :=
  match image.words[address]? with
  | some w => .ok w
  | none => .error (.outOfBounds address)

/-- The character words of the string whose length stands at `address`. -/
def stringFrom (image : Image) (address : Nat) : Except ImageError (List Word) := do
  let length := (← image.word address).toNat
  let start := address + 1
  if start + length ≤ image.words.size then
    return (image.words.extract start (start + length)).toList
  else throw (.outOfBounds (start + length))

/-- The character words of a string. An `indirect` address is that of a word with the address of
the string. -/
def stringAt (image : Image) (address : Word) (indirect : Bool) :
    Except ImageError (List Word) := do
  if indirect then image.stringFrom (← image.word address.toNat).toNat
  else image.stringFrom address.toNat

end Image

/-- The bytes of a string: the low byte of each character word. -/
def stringBytes (characters : List Word) : List UInt8 := characters.map UInt16.toUInt8

/-- A string with the bytes that are not printable escaped. -/
def escapedString (characters : List Word) : String :=
  String.join ((stringBytes characters).map escapedByte)

end WordMachine
