import Mathlib.Algebra.Ring.Parity
import WordMachine.Memory

/-!
# Images and memories as bytes

The bytes of a word are its low byte and its high byte. So an even number of bytes is taken apart
into words and put together again without loss (`flatMap_wordPairs`), and so are words
(`wordPairs_flatMap`).

From there on it is a matter of sizes: bytes are an image if they make up whole words that fit into
memory (`ofBytes_eq_ok_iff`), and loaded memory holds zeros behind them (`toBytes_ofImage`). The
bytes of a memory are an image that fills it, and loading this gives the memory back
(`ofBytes_toBytes`, `ofImage_toImage`).
-/

namespace WordMachine

namespace Image

variable {bytes : Array UInt8} {image : Image}

/-! ### Words and bytes -/

private theorem toNat_wordOfBytes (low high : UInt8) :
    (wordOfBytes low high).toNat = low.toNat + 256 * high.toNat := by
  have hlow := low.toNat_lt
  have hhigh := high.toNat_lt
  rw [wordOfBytes, UInt16.toNat_ofNat', Nat.mod_eq_of_lt (by omega)]

/-- The bytes of a word that was put together from two. -/
private theorem bytesOfWord_wordOfBytes (low high : UInt8) :
    bytesOfWord (wordOfBytes low high) = [low, high] := by
  have hlow := low.toNat_lt
  have hfirst : (wordOfBytes low high).toUInt8 = low := by
    refine UInt8.toNat_inj.mp ?_
    rw [UInt16.toNat_toUInt8, toNat_wordOfBytes]
    omega
  have hsecond : (wordOfBytes low high).toNat / 256 = high.toNat := by
    rw [toNat_wordOfBytes]
    omega
  rw [bytesOfWord, hfirst, hsecond, UInt8.ofNat_toNat]

/-- The word that is put together from the bytes of one. -/
private theorem wordOfBytes_bytes (w : Word) :
    wordOfBytes w.toUInt8 (UInt8.ofNat (w.toNat / 256)) = w := by
  have hhigh : w.toNat / 256 < 2 ^ 8 := by
    have hw := w.toNat_lt
    omega
  refine UInt16.toNat_inj.mp ?_
  rw [toNat_wordOfBytes, UInt16.toNat_toUInt8, UInt8.toNat_ofNat', Nat.mod_eq_of_lt hhigh]
  omega

/-- The words that bytes stand for, two by two. A single byte at the end does not count. -/
def wordPairs : List UInt8 → List Word
  | low :: high :: rest => wordOfBytes low high :: wordPairs rest
  | [] | [_] => []

private theorem length_wordPairs (bytes : List UInt8) :
    (wordPairs bytes).length = bytes.length / 2 := by
  induction bytes using wordPairs.induct with
  | case1 low high rest ih =>
    simp only [wordPairs, List.length_cons, ih]
    omega
  | case2 => rfl
  | case3 last => simp [wordPairs]

private theorem getElem_wordPairs {bytes : List UInt8} {k : Nat} (hk : 2 * k + 1 < bytes.length)
    (hk' : k < (wordPairs bytes).length) :
    (wordPairs bytes)[k] = wordOfBytes bytes[2 * k] bytes[2 * k + 1] := by
  induction bytes using wordPairs.induct generalizing k with
  | case1 low high rest ih =>
    cases k with
    | zero => rfl
    | succ k => exact ih (by simp at hk; omega) (by simpa [wordPairs] using hk')
  | case2 => cases hk'
  | case3 last => cases hk'

private theorem toList_wordsOfBytes (bytes : Array UInt8) :
    (wordsOfBytes bytes).toList = wordPairs bytes.toList := by
  rw [wordsOfBytes, Array.toList_ofFn]
  refine List.ext_getElem (by simp [length_wordPairs]) fun k hk hk' => ?_
  rw [List.length_ofFn] at hk
  rw [List.getElem_ofFn, getElem_wordPairs (by rw [Array.length_toList]; omega) hk']
  rfl

/-- Bytes that are taken apart into words are those of the words, if there is an even number of
them. -/
theorem flatMap_wordPairs {bytes : List UInt8} (h : Even bytes.length) :
    (wordPairs bytes).flatMap bytesOfWord = bytes := by
  induction bytes using wordPairs.induct with
  | case1 low high rest ih =>
    have hrest : Even rest.length := by
      simpa [Nat.even_add_one] using h
    rw [wordPairs, List.flatMap_cons, bytesOfWord_wordOfBytes, ih hrest]
    rfl
  | case2 => rfl
  | case3 last => simp at h

/-- The bytes of words are taken apart into these words. -/
theorem wordPairs_flatMap (words : List Word) : wordPairs (words.flatMap bytesOfWord) = words := by
  induction words with
  | nil => rfl
  | cons w rest ih =>
    rw [List.flatMap_cons, bytesOfWord, List.cons_append, List.cons_append, List.nil_append,
      wordPairs, ih, wordOfBytes_bytes]

private theorem length_flatMap_bytesOfWord (words : List Word) :
    (words.flatMap bytesOfWord).length = 2 * words.length := by
  induction words with
  | nil => rfl
  | cons w rest ih =>
    rw [List.flatMap_cons, List.length_append, ih, bytesOfWord, List.length_cons]
    simp only [List.length_cons, List.length_nil]
    omega

/-! ### Images from bytes -/

private theorem size_wordsOfBytes (bytes : Array UInt8) :
    (wordsOfBytes bytes).size = bytes.size / 2 := by
  rw [wordsOfBytes, Array.size_ofFn]

private theorem size_wordsOfBytes_le_iff (h : Even bytes.size) :
    (wordsOfBytes bytes).size ≤ memorySize ↔ bytes.size ≤ 2 * memorySize := by
  obtain ⟨half, hhalf⟩ := h
  rw [size_wordsOfBytes]
  omega

/-- An odd number of bytes is not aligned, however many they are. -/
theorem ofBytes_of_odd (h : Odd bytes.size) : ofBytes bytes = .error (.misaligned bytes.size) := by
  rw [ofBytes, if_neg (by rw [Nat.odd_iff.mp h]; decide)]

/-- An even number of bytes is an image if memory has room for them. -/
private theorem ofBytes_of_even (h : Even bytes.size) :
    ofBytes bytes = ofWords (wordsOfBytes bytes) := by
  rw [ofBytes, if_pos (Nat.even_iff.mp h)]

/-- Bytes are an image when they make up whole words that fit into memory. -/
theorem ofBytes_eq_ok_iff :
    ofBytes bytes = .ok image ↔
      Even bytes.size ∧ bytes.size ≤ 2 * memorySize ∧ image.words = wordsOfBytes bytes := by
  obtain heven | hodd := Nat.even_or_odd bytes.size
  · rw [ofBytes_of_even heven, ofWords, ← size_wordsOfBytes_le_iff heven]
    obtain ⟨words, hwords⟩ := image
    split
    next hfits => simp [heven, hfits, eq_comm]
    next hlarge => simp [hlarge]
  · rw [ofBytes_of_odd hodd]
    simp [Nat.not_even_iff_odd.mpr hodd]

theorem exists_ofBytes_iff :
    (∃ image, ofBytes bytes = .ok image) ↔ Even bytes.size ∧ bytes.size ≤ 2 * memorySize := by
  refine ⟨?_, fun ⟨heven, hle⟩ => ?_⟩
  · rintro ⟨image, h⟩
    obtain ⟨heven, hle, -⟩ := ofBytes_eq_ok_iff.mp h
    exact ⟨heven, hle⟩
  · exact ⟨⟨wordsOfBytes bytes, (size_wordsOfBytes_le_iff heven).mpr hle⟩,
      ofBytes_eq_ok_iff.mpr ⟨heven, hle, rfl⟩⟩

/-- Whole words that do not fit into memory are too many. -/
theorem ofBytes_of_large (heven : Even bytes.size) (hlarge : 2 * memorySize < bytes.size) :
    ofBytes bytes = .error (.tooLarge (bytes.size / 2)) := by
  rw [ofBytes_of_even heven, ofWords,
    dif_neg (mt (size_wordsOfBytes_le_iff heven).mp (Nat.not_le_of_lt hlarge)), size_wordsOfBytes]

/-- The bytes of the words of an image are those that it was made of. -/
private theorem flatMap_of_ofBytes (h : ofBytes bytes = .ok image) :
    image.words.toList.flatMap bytesOfWord = bytes.toList := by
  obtain ⟨heven, -, hwords⟩ := ofBytes_eq_ok_iff.mp h
  rw [hwords, toList_wordsOfBytes, flatMap_wordPairs (by rwa [Array.length_toList])]

/-- Every image is made of the bytes of its words. -/
theorem ofBytes_flatMap (image : Image) :
    ofBytes (image.words.toList.flatMap bytesOfWord).toArray = .ok image := by
  have hsize : (image.words.toList.flatMap bytesOfWord).toArray.size = 2 * image.words.size := by
    rw [List.size_toArray, length_flatMap_bytesOfWord, Array.length_toList]
  have hwords : image.words = wordsOfBytes (image.words.toList.flatMap bytesOfWord).toArray := by
    rw [← Array.toList_inj, toList_wordsOfBytes, List.toList_toArray, wordPairs_flatMap]
  rw [ofBytes_eq_ok_iff, hsize]
  exact ⟨even_two_mul _, Nat.mul_le_mul_left 2 image.size_le, hwords⟩

end Image

/-! ### Memories as bytes -/

namespace Memory

open Image

variable {bytes : Array UInt8} {image : Image}

theorem length_toBytes (memory : Memory) : memory.toBytes.length = 2 * memorySize := by
  rw [toBytes, length_flatMap_bytesOfWord, Array.length_toList, size_words]

private theorem flatMap_bytesOfWord_zeros (n : Nat) :
    (List.replicate n (0 : Word)).flatMap bytesOfWord = List.replicate (2 * n) 0 := by
  induction n with
  | zero => rfl
  | succ n ih =>
    rw [List.replicate_succ, List.flatMap_cons, ih]
    rfl

/-- Behind the bytes of the program, loaded memory holds zeros. -/
theorem toBytes_ofImage (h : ofBytes bytes = .ok image) :
    (ofImage image).toBytes =
      bytes.toList ++ List.replicate (2 * memorySize - bytes.size) 0 := by
  obtain ⟨⟨half, hhalf⟩, -, hwords⟩ := ofBytes_eq_ok_iff.mp h
  have hzeros : 2 * (memorySize - image.words.size) = 2 * memorySize - bytes.size := by
    rw [hwords, size_wordsOfBytes]
    omega
  rw [toBytes, words_ofImage, Array.toList_append, List.flatMap_append, flatMap_of_ofBytes h,
    Array.toList_replicate, flatMap_bytesOfWord_zeros, hzeros]

/-- All of a memory, as an image. -/
def toImage (memory : Memory) : Image := ⟨memory.words, Nat.le_of_eq memory.size_words⟩

/-- The bytes of a memory are an image. -/
theorem ofBytes_toBytes (memory : Memory) :
    ofBytes memory.toBytes.toArray = .ok memory.toImage := ofBytes_flatMap memory.toImage

/-- Loading all of a memory gives it back. -/
theorem ofImage_toImage (memory : Memory) : ofImage memory.toImage = memory := by
  have hwords : (ofImage memory.toImage).words = memory.words := by
    rw [words_ofImage, toImage, size_words, Nat.sub_self, Array.replicate_zero, Array.append_empty]
  obtain ⟨cells⟩ := memory
  exact congrArg Memory.mk (Vector.toArray_inj.mp hwords)

end Memory

end WordMachine
