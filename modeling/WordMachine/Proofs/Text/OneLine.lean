import WordMachine.Proofs.Text.Escape
import WordMachine.Proofs.Text.Numeral
import WordMachine.Text.Column

/-!
# Texts of one line

A text that holds no line feed stays on **one line**. Texts that are put together from such texts do
so too, and so does a quoted byte, whatever byte it is (`isOneLine_quotedByte`).
-/

namespace WordMachine.Text

/-- The text holds no line feed. -/
def IsOneLine (text : String) : Prop := '\n' ∉ text.toList

instance (text : String) : Decidable (IsOneLine text) :=
  inferInstanceAs (Decidable ('\n' ∉ text.toList))

variable {first second separator text : String} {texts : List String}

/-- A class of characters that leaves out the line feed makes texts of one line. -/
theorem isOneLine_of_all {p : Char → Bool} (hp : p '\n' = false)
    (h : ∀ c ∈ text.toList, p c = true) : IsOneLine text := by
  intro hfeed
  have htrue := h '\n' hfeed
  rw [hp] at htrue
  cases htrue

@[simp] theorem isOneLine_append :
    IsOneLine (first ++ second) ↔ IsOneLine first ∧ IsOneLine second := by
  rw [IsOneLine, String.toList_append, List.mem_append, not_or, IsOneLine, IsOneLine]

theorem IsOneLine.append (h : IsOneLine first) (h' : IsOneLine second) :
    IsOneLine (first ++ second) := isOneLine_append.mpr ⟨h, h'⟩

theorem isOneLine_join (h : ∀ text ∈ texts, IsOneLine text) : IsOneLine (String.join texts) := by
  induction texts with
  | nil => exact (by decide : IsOneLine "")
  | cons text texts ih =>
    obtain ⟨htext, htexts⟩ := List.forall_mem_cons.mp h
    rw [String.join_cons]
    exact htext.append (ih htexts)

theorem isOneLine_intercalate (hseparator : IsOneLine separator)
    (h : ∀ text ∈ texts, IsOneLine text) : IsOneLine (separator.intercalate texts) := by
  induction texts with
  | nil => exact (by decide : IsOneLine "")
  | cons text texts ih =>
    obtain ⟨htext, htexts⟩ := List.forall_mem_cons.mp h
    cases texts with
    | nil => simpa using htext
    | cons next texts =>
      rw [String.intercalate_cons_cons]
      exact (htext.append hseparator).append (ih htexts)

theorem isOneLine_spaces (width : Nat) : IsOneLine (spaces width) := by
  rw [spaces, IsOneLine, String.toList_ofList]
  intro hfeed
  cases List.eq_of_mem_replicate hfeed

theorem IsOneLine.alignRight (h : IsOneLine text) (width : Nat) :
    IsOneLine (alignRight width text) := (isOneLine_spaces _).append h

theorem isOneLine_decimal (n : Nat) : IsOneLine (decimal n) :=
  isOneLine_of_all (by decide) fun _ => isDigit_of_mem_decimal

private theorem isOneLine_toString {c : Char} (h : c ≠ '\n') : IsOneLine c.toString := by
  simpa [IsOneLine] using h.symm

/-! ### Bytes made visible -/

variable {b : UInt8}

private theorem digitChar_ne_feed {n : Nat} (h : n < 16) : Nat.digitChar n ≠ '\n' := by
  have hdigits : ∀ n < 16, Nat.digitChar n ≠ '\n' := by decide
  exact hdigits n h

theorem isOneLine_hexadecimalPair (b : UInt8) : IsOneLine (hexadecimalPair b) := by
  obtain ⟨hhigh, hlow⟩ := digits_lt b
  simp [IsOneLine, hexadecimalPair, (digitChar_ne_feed hhigh).symm, (digitChar_ne_feed hlow).symm]

private theorem isOneLine_shortHexadecimal (b : UInt8) : IsOneLine (shortHexadecimal b) := by
  -- By induction on the number: the last digit is split off.
  have hdigits (n : Nat) : '\n' ∉ Nat.toDigits 16 n := by
    induction n using Nat.strongRecOn with
    | ind n ih =>
      rw [Nat.toDigits_eq_if (by decide)]
      split
      · next hlt => simp [(digitChar_ne_feed hlt).symm]
      · next hle =>
        have hfront := ih (n / 16) (by omega)
        have hlast := digitChar_ne_feed (Nat.mod_lt n (by decide : 0 < 16))
        simp [hfront, hlast.symm]
  rw [IsOneLine, shortHexadecimal, String.toList_ofList]
  exact hdigits b.toNat

/-- The line feed is not printable. -/
theorem isOneLine_of_isPrintable (h : isPrintable b = true) :
    IsOneLine (byteCharacter b).toString := by
  refine isOneLine_toString fun hfeed => ?_
  have hb : b.toNat = 10 := by
    rw [← toNat_byteCharacter, hfeed]
    rfl
  simp [isPrintable, UInt8.le_iff_toNat_le, hb] at h

/-- Quoting a byte spells out a line feed. -/
theorem isOneLine_quotedByte (b : UInt8) : IsOneLine (quotedByte b) := by
  have hquote : IsOneLine "'" := by decide
  rw [quotedByte]
  refine (hquote.append ?_).append hquote
  split
  · decide
  · decide
  · decide
  · decide
  · decide
  · decide
  · -- Any other character is not the line feed.
    next hfeed _ _ _ =>
    split
    · exact isOneLine_toString hfeed
    · have hbraces : IsOneLine "\\u\x7b" ∧ IsOneLine "\x7d" := by decide
      exact (hbraces.1.append (isOneLine_shortHexadecimal b)).append hbraces.2

end WordMachine.Text
