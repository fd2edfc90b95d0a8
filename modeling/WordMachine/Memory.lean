import WordMachine.Image

/-!
# Memory and stack

Memory is 32768 words; addresses from 32768 on lie outside. A program is loaded at address 0 and
the rest of memory is zero. The stack is separate from memory and unbounded.
-/

namespace WordMachine

open Text

/-- An access outside of memory. -/
structure AddressOutside where
  /-- The address that was asked for. -/
  address : Word
  deriving DecidableEq, Repr

/-- The wording of an access outside of memory. -/
def AddressOutside.message (error : AddressOutside) : String :=
  "Address " ++ error.address.text ++ " is outside of memory"

/-- The address space of the machine. -/
structure Memory where
  /-- The words from address 0 on. -/
  cells : Vector Word memorySize

namespace Memory

/-- Memory with a program loaded at address 0. -/
def ofImage (image : Image) : Memory where
  cells :=
    ⟨image.words ++ Array.replicate (memorySize - image.words.size) 0, by
      have := image.size_le
      simp only [Array.size_append, Array.size_replicate]
      omega⟩

/-- All words, from address 0 on. -/
def words (memory : Memory) : Array Word := memory.cells.toArray

/-- Whether an address lies in memory. -/
abbrev Holds (address : Word) : Prop := address.toNat < memorySize

/-- The word at an address. -/
def read (memory : Memory) (address : Word) : Except AddressOutside Word :=
  if h : Holds address then .ok memory.cells[address.toNat] else .error ⟨address⟩

/-- Memory with `value` at an address; outside of memory nothing changes. -/
def put (memory : Memory) (address value : Word) : Memory :=
  ⟨memory.cells.setIfInBounds address.toNat value⟩

/-- Memory with `value` at an address. -/
def write (memory : Memory) (address value : Word) : Except AddressOutside Memory :=
  if Holds address then .ok (memory.put address value) else .error ⟨address⟩

/-- All words as bytes, low byte first. -/
def toBytes (memory : Memory) : List UInt8 := memory.words.toList.flatMap Image.bytesOfWord

@[simp] theorem size_words (memory : Memory) : memory.words.size = memorySize :=
  memory.cells.size_toArray

theorem read_put {memory : Memory} {address : Word} (h : Holds address) (value a : Word) :
    (memory.put address value).read a = if address = a then .ok value else memory.read a := by
  by_cases ha : Holds a
  · by_cases heq : address = a
    · subst heq
      simp [read, put, h]
    · have hne : address.toNat ≠ a.toNat := fun hn => heq (UInt16.toNat_inj.mp hn)
      simp [read, put, ha, heq, hne]
  · have hne : address ≠ a := by
      rintro rfl
      exact ha h
    simp [read, ha, hne]

theorem words_ofImage (image : Image) :
    (ofImage image).words = image.words ++ Array.replicate (memorySize - image.words.size) 0 := rfl

/-- Within the program, loaded memory holds its words. -/
theorem extract_words_ofImage {image : Image} {start stop : Nat} (h : stop ≤ image.words.size) :
    (ofImage image).words.extract start stop = image.words.extract start stop := by
  have hzeros : (Array.replicate (memorySize - image.words.size) (0 : Word)).extract
      (start - image.words.size) (stop - image.words.size) = #[] := by
    rw [Nat.sub_eq_zero_of_le h, Array.extract_zero]
  rw [words_ofImage, Array.extract_append, hzeros, Array.append_empty]

end Memory

/-- A stack of words, its top first. -/
abbrev Stack := List Word

end WordMachine
