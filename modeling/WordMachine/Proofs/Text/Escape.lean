import WordMachine.Text.Escape
import WordMachine.Text.Numeral

/-!
# Visible forms of bytes

A byte can be told from its character (`byteCharacter_injective`), and from its two hexadecimal
digits (`hexadecimalPair_injective`).
-/

namespace WordMachine.Text

theorem toNat_byteCharacter (b : UInt8) : (byteCharacter b).toNat = b.toNat := by
  have hvalid : b.toNat.isValidChar := .inl (Nat.lt_trans b.toNat_lt (by decide))
  rw [byteCharacter, Char.ofNat, dif_pos hvalid]
  rfl

theorem byteCharacter_injective : Function.Injective byteCharacter := fun b b' h => by
  rw [← UInt8.toNat_inj, ← toNat_byteCharacter, h, toNat_byteCharacter]

private theorem hexadecimalValue?_digitChar {n : Nat} (h : n < 16) :
    hexadecimalValue? (Nat.digitChar n) = some n := by
  have hdigits : ∀ n < 16, hexadecimalValue? (Nat.digitChar n) = some n := by decide
  exact hdigits n h

theorem digitChar_inj {n m : Nat} (hn : n < 16) (hm : m < 16)
    (h : Nat.digitChar n = Nat.digitChar m) : n = m := by
  have hvalue := hexadecimalValue?_digitChar hn
  rw [h, hexadecimalValue?_digitChar hm] at hvalue
  exact (Option.some.inj hvalue).symm

theorem digits_lt (b : UInt8) : b.toNat / 16 < 16 ∧ b.toNat % 16 < 16 :=
  ⟨Nat.div_lt_of_lt_mul b.toNat_lt, Nat.mod_lt _ (by decide)⟩

/-- Two hexadecimal digits make up a byte. -/
theorem eq_of_digitChar_eq {b b' : UInt8}
    (hhigh : Nat.digitChar (b.toNat / 16) = Nat.digitChar (b'.toNat / 16))
    (hlow : Nat.digitChar (b.toNat % 16) = Nat.digitChar (b'.toNat % 16)) : b = b' := by
  have hdiv := digitChar_inj (digits_lt b).1 (digits_lt b').1 hhigh
  have hmod := digitChar_inj (digits_lt b).2 (digits_lt b').2 hlow
  exact UInt8.toNat_inj.mp (by omega)

theorem hexadecimalPair_injective : Function.Injective hexadecimalPair := fun b b' h => by
  obtain ⟨hhigh, hlow⟩ : Nat.digitChar (b.toNat / 16) = Nat.digitChar (b'.toNat / 16) ∧
      Nat.digitChar (b.toNat % 16) = Nat.digitChar (b'.toNat % 16) := by
    simpa [hexadecimalPair] using h
  exact eq_of_digitChar_eq hhigh hlow

end WordMachine.Text
