import WordMachine.Memory
import WordMachine.Proofs.Instruction.Decoding

/-!
# Decoding is local

An instruction depends on no words but its own (`decode_congr`). So more words behind a stream
change what is decoded only where decoding is **cut off** by the end of the stream
(`decode_append`).

A program in memory is followed by zeros. Decoding it there gives what decoding the image gives,
unless an instruction is cut off by the end of the image; behind the end memory reads as halts
(`decode_memory_of_size_le`).
-/

namespace WordMachine

/-- Decoding failed because the words ended. -/
def DecodeError.IsCutOff : DecodeError → Prop
  | endOfStream | truncated .. => True
  | unknownOpcode _ | notARegister .. | invalidOperand _ => False

namespace Instruction

variable {words : List Word} {opcode : Opcode} {k : Nat} {w : Word} {e : DecodeError}
  {stream stream' : Array Word} {position n : Nat} {i : Instruction}

/-! ### More words -/

/-- The first operand that is refused stays the first when more words follow. -/
theorem FirstRefused.append (h : FirstRefused words opcode k w) (more : List Word) :
    FirstRefused (words ++ more) opcode k w where
  opcode_word := List.mem_head?_append_of_mem_head? h.opcode_word
  complete := Nat.lt_of_lt_of_le h.complete (by simp)
  isOperand := h.isOperand
  operand_word := by
    have hlt := Nat.lt_of_le_of_lt h.isOperand h.complete
    rw [List.getElem?_append_left hlt]
    exact h.operand_word
  accepted_before j hj w' hw' := by
    have hlt : j + 1 < words.length :=
      Nat.lt_trans (Nat.lt_of_le_of_lt hj h.isOperand) h.complete
    rw [List.getElem?_append_left hlt] at hw'
    exact h.accepted_before j hj w' hw'
  refused := h.refused

/-- What is wrong stays wrong when more words follow, unless the words ended too early. -/
theorem Misread.append (h : Misread words e) (hwhole : ¬e.IsCutOff) (more : List Word) :
    Misread (words ++ more) e := by
  cases h with
  | endOfStream | truncated => exact absurd trivial hwhole
  | unknownOpcode hw hge => exact .unknownOpcode (List.mem_head?_append_of_mem_head? hw) hge
  | invalidOperand h hgt => exact .invalidOperand (h.append more) hgt
  | notARegister h hresult hlt => exact .notARegister (h.append more) hresult hlt

/-- Reading the head of a list gives the same when more words follow, unless it was cut off. -/
theorem ofWords_append (hwhole : ∀ e, ofWords words = .error e → ¬e.IsCutOff) (more : List Word) :
    ofWords (words ++ more) = ofWords words := by
  cases h : ofWords words with
  | ok read =>
    obtain ⟨i, n⟩ := read
    obtain ⟨hencodable, hn, hprefix⟩ := ofWords_eq_ok_iff.mp h
    exact ofWords_eq_ok_iff.mpr ⟨hencodable, hn, hprefix.trans (List.prefix_append words more)⟩
  | error e =>
    exact ofWords_eq_error_iff.mpr ((ofWords_eq_error_iff.mp h).append (hwhole e h) more)

/-- Decoding gives the same in a longer stream, unless it was cut off. -/
theorem decode_append (hwhole : ∀ e, decode stream position = .error e → ¬e.IsCutOff)
    (more : Array Word) : decode (stream ++ more) position = decode stream position := by
  rw [decode_eq, decode_eq, Array.toList_append, List.drop_append]
  rw [decode_eq] at hwhole
  exact ofWords_append hwhole _

/-! ### Other words -/

/-- An instruction depends on no words but its own. -/
theorem decode_congr (h : decode stream position = .ok (i, n))
    (hsame : ∀ k, position ≤ k → k < position + i.length → stream'[k]? = stream[k]?) :
    decode stream' position = .ok (i, n) := by
  rw [decode_eq, ofWords_eq_ok_iff] at h ⊢
  obtain ⟨hencodable, hn, hprefix⟩ := h
  refine ⟨hencodable, hn, List.prefix_iff_getElem?.mpr fun k hk => ?_⟩
  have hword := List.prefix_iff_getElem?.mp hprefix k hk
  rw [length_words] at hk
  rw [List.getElem?_drop, Array.getElem?_toList] at hword ⊢
  rw [hsame _ (Nat.le_add_right _ _) (Nat.add_lt_add_left hk position)]
  exact hword

/-! ### Programs in memory -/

theorem decode_eq_endOfStream_iff :
    decode stream position = .error .endOfStream ↔ stream.size ≤ position := by
  rw [decode_eq, ofWords_eq_error_iff, misread_endOfStream_iff, List.drop_eq_nil_iff,
    Array.length_toList]

/-- In memory a program is decoded as in its image, unless it is cut off there. -/
theorem decode_memory {image : Image}
    (hwhole : ∀ e, decode image.words position = .error e → ¬e.IsCutOff) :
    decode (Memory.ofImage image).words position = decode image.words position := by
  rw [Memory.words_ofImage]
  exact decode_append hwhole _

/-- Behind the program, memory holds halts. -/
theorem decode_memory_of_size_le {image : Image} (hsize : image.words.size ≤ position)
    (hlt : position < memorySize) :
    decode (Memory.ofImage image).words position = .ok (halt, 1) := by
  have hzeros : (Memory.ofImage image).words.toList.drop position =
      List.replicate (memorySize - position) 0 := by
    rw [Memory.words_ofImage, Array.toList_append, List.drop_append,
      List.drop_eq_nil_of_le (by simpa using hsize), Array.toList_replicate, List.drop_replicate,
      Array.length_toList, List.nil_append]
    congr 1
    omega
  obtain ⟨more, hmore⟩ := Nat.exists_eq_succ_of_ne_zero (Nat.sub_ne_zero_of_lt hlt)
  rw [decode_eq, hzeros, hmore, List.replicate_succ]
  rfl

/-- Memory and image differ only where an instruction is cut off by the end of the image, or between
that end and the end of memory. -/
theorem truncated_or_behind_of_decode_ne {image : Image}
    (h : decode (Memory.ofImage image).words position ≠ decode image.words position) :
    (∃ opcode expected found,
        decode image.words position = .error (.truncated opcode expected found)) ∨
      (image.words.size ≤ position ∧ position < memorySize) := by
  by_contra hneither
  obtain ⟨htruncated, hbehind⟩ := not_or.mp hneither
  refine h (decode_memory fun e he hcut => ?_)
  cases e with
  | endOfStream =>
    -- Behind the end of memory both have ended.
    have hsize := decode_eq_endOfStream_iff.mp he
    have hmemory : (Memory.ofImage image).words.size ≤ position := by
      rw [Memory.size_words]
      exact Nat.le_of_not_lt fun hlt => hbehind ⟨hsize, hlt⟩
    exact h ((decode_eq_endOfStream_iff.mpr hmemory).trans he.symm)
  | truncated opcode expected found => exact htruncated ⟨opcode, expected, found, he⟩
  | unknownOpcode | notARegister | invalidOperand => exact hcut

end Instruction

end WordMachine
