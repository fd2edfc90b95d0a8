import WordMachine.Proofs.Text.Escape

/-!
# Strings with escapes spelled out

In the text of a string a backslash stands for itself, and it also begins the escape of a byte that
is not printable. So three printable bytes may look like an escape: they **spell out** a byte
(`spelling`). This is the only way in which different strings have the same text
(`escapedText_eq_iff`): they are **spelled alike**, which means that they are the same byte for
byte, but for bytes that one of them spells out. Strings that spell out nothing are told apart by
their texts (`SpelledAlike.eq`).
-/

namespace WordMachine.Text

variable {b : UInt8} {bytes bytes' : List UInt8} {c : Char} {rest : List Char}

/-! ### Spellings -/

/-- The byte of a lower-case hexadecimal digit. -/
def digitByte (n : Nat) : UInt8 := UInt8.ofNat (if n < 10 then 48 + n else 87 + n)

/-- The bytes that look like the escape of a byte: a backslash and two hexadecimal digits. -/
def spelling (b : UInt8) : List UInt8 := [92, digitByte (b.toNat / 16), digitByte (b.toNat % 16)]

/-- The bytes **spell out** a byte that is not printable. -/
def SpellsOut (bytes : List UInt8) : Prop := ∃ b, isPrintable b = false ∧ spelling b <:+: bytes

/-- Without a backslash nothing is spelled out. -/
theorem not_spellsOut_of_notMem (h : 92 ∉ bytes) : ¬SpellsOut bytes :=
  fun ⟨_, _, hpart⟩ => h (hpart.subset List.mem_cons_self)

/-- The bytes are the same one by one, but where one side has a byte that is not printable the other
side may have its spelling. -/
inductive SpelledAlike : List UInt8 → List UInt8 → Prop
  | nil : SpelledAlike [] []
  | same (b : UInt8) {bytes bytes' : List UInt8} (h : SpelledAlike bytes bytes') :
    SpelledAlike (b :: bytes) (b :: bytes')
  | left {b : UInt8} (hb : isPrintable b = false) {bytes bytes' : List UInt8}
      (h : SpelledAlike bytes bytes') : SpelledAlike (spelling b ++ bytes) (b :: bytes')
  | right {b : UInt8} (hb : isPrintable b = false) {bytes bytes' : List UInt8}
      (h : SpelledAlike bytes bytes') : SpelledAlike (b :: bytes) (spelling b ++ bytes')

/-- Where nothing is spelled out, bytes that are spelled alike are the same. -/
theorem SpelledAlike.eq (h : SpelledAlike bytes bytes') (hbytes : ¬SpellsOut bytes)
    (hbytes' : ¬SpellsOut bytes') : bytes = bytes' := by
  have hrest {b : UInt8} {bytes : List UInt8} (h : ¬SpellsOut (b :: bytes)) : ¬SpellsOut bytes :=
    fun ⟨b', hb', hpart⟩ => h ⟨b', hb', List.infix_cons hpart⟩
  induction h with
  | nil => rfl
  | same b _ ih => rw [ih (hrest hbytes) (hrest hbytes')]
  | left hb _ _ => exact absurd ⟨_, hb, (List.prefix_append _ _).isInfix⟩ hbytes
  | right hb _ _ => exact absurd ⟨_, hb, (List.prefix_append _ _).isInfix⟩ hbytes'

/-! ### The text of bytes -/

/-- The text of bytes, with escapes for those that are not printable. -/
def escapedText (bytes : List UInt8) : List Char := bytes.flatMap fun b => (escapedByte b).toList

theorem escapedText_cons (b : UInt8) (bytes : List UInt8) :
    escapedText (b :: bytes) = (escapedByte b).toList ++ escapedText bytes := rfl

private theorem escapedText_cons_of_isPrintable (h : isPrintable b = true) (bytes : List UInt8) :
    escapedText (b :: bytes) = byteCharacter b :: escapedText bytes := by
  rw [escapedText_cons, escapedByte, if_pos h]
  simp

private theorem escapedText_cons_of_not_isPrintable (h : isPrintable b = false)
    (bytes : List UInt8) :
    escapedText (b :: bytes) =
      '\\' :: Nat.digitChar (b.toNat / 16) :: Nat.digitChar (b.toNat % 16) ::
        escapedText bytes := by
  rw [escapedText_cons, escapedByte, if_neg (Bool.eq_false_iff.mp h)]
  simp [hexadecimalPair]

/-- The text of a byte is not empty. -/
private theorem escapedText_cons_ne_nil (b : UInt8) (bytes : List UInt8) :
    escapedText (b :: bytes) ≠ [] := by
  cases h : isPrintable b with
  | true => exact escapedText_cons_of_isPrintable h bytes ▸ List.cons_ne_nil _ _
  | false => exact escapedText_cons_of_not_isPrintable h bytes ▸ List.cons_ne_nil _ _

/-- The byte of a digit is printable, its character is the digit, and a digit is no backslash. -/
private theorem digitByte_facts {n : Nat} (h : n < 16) :
    isPrintable (digitByte n) = true ∧ byteCharacter (digitByte n) = Nat.digitChar n ∧
      Nat.digitChar n ≠ '\\' := by
  have hdigits : ∀ n < 16, isPrintable (digitByte n) = true ∧
      byteCharacter (digitByte n) = Nat.digitChar n ∧ Nat.digitChar n ≠ '\\' := by decide
  exact hdigits n h

/-- A spelling looks like the escape. -/
private theorem escapedText_spelling (b : UInt8) (bytes : List UInt8) :
    escapedText (spelling b ++ bytes) =
      '\\' :: Nat.digitChar (b.toNat / 16) :: Nat.digitChar (b.toNat % 16) ::
        escapedText bytes := by
  obtain ⟨hhigh, hhigh', -⟩ := digitByte_facts (digits_lt b).1
  obtain ⟨hlow, hlow', -⟩ := digitByte_facts (digits_lt b).2
  have hbackslash : isPrintable 92 = true ∧ byteCharacter 92 = '\\' := by decide
  rw [spelling, List.cons_append, List.cons_append, List.cons_append, List.nil_append,
    escapedText_cons_of_isPrintable hbackslash.1, escapedText_cons_of_isPrintable hhigh,
    escapedText_cons_of_isPrintable hlow, hbackslash.2, hhigh', hlow']

/-- Any character but a backslash is that of a printable byte. -/
private theorem exists_of_escapedText_eq_cons (h : escapedText bytes = c :: rest) (hc : c ≠ '\\') :
    ∃ b later, bytes = b :: later ∧ byteCharacter b = c ∧ escapedText later = rest := by
  cases bytes with
  | nil => cases h
  | cons b later =>
    cases hb : isPrintable b with
    | true =>
      rw [escapedText_cons_of_isPrintable hb, List.cons.injEq] at h
      exact ⟨b, later, rfl, h⟩
    | false =>
      rw [escapedText_cons_of_not_isPrintable hb, List.cons.injEq] at h
      exact absurd h.1.symm hc

/-- A text that goes on like an escape behind its backslash is that of the digits. -/
private theorem exists_of_escapedText_eq_digits
    (h : escapedText bytes =
      Nat.digitChar (b.toNat / 16) :: Nat.digitChar (b.toNat % 16) :: rest) :
    ∃ later, 92 :: bytes = spelling b ++ later ∧ escapedText later = rest := by
  obtain ⟨-, hhigh, hne⟩ := digitByte_facts (digits_lt b).1
  obtain ⟨-, hlow, hne'⟩ := digitByte_facts (digits_lt b).2
  obtain ⟨high, later, rfl, hb, hlater⟩ := exists_of_escapedText_eq_cons h hne
  obtain ⟨low, later, rfl, hb', hrest⟩ := exists_of_escapedText_eq_cons hlater hne'
  rw [← hhigh] at hb
  rw [← hlow] at hb'
  rw [byteCharacter_injective hb, byteCharacter_injective hb']
  exact ⟨later, rfl, hrest⟩

/-! ### Texts that are the same -/

/-- A printable byte and a byte that is not have the same character in front only where the first
byte is the backslash of a spelling. -/
private theorem exists_spelling_of_escapedText_eq {b' : UInt8} (hb : isPrintable b = true)
    (hb' : isPrintable b' = false)
    (h : escapedText (b :: bytes) = escapedText (b' :: bytes')) :
    ∃ later, b :: bytes = spelling b' ++ later ∧ escapedText later = escapedText bytes' := by
  rw [escapedText_cons_of_isPrintable hb, escapedText_cons_of_not_isPrintable hb',
    List.cons.injEq] at h
  have hbackslash : byteCharacter 92 = '\\' := by decide
  obtain rfl : b = 92 := byteCharacter_injective (h.1.trans hbackslash.symm)
  exact exists_of_escapedText_eq_digits h.2

private theorem spelledAlike_of_escapedText_eq (h : escapedText bytes = escapedText bytes') :
    SpelledAlike bytes bytes' := by
  -- By induction on both lengths together, since a spelling takes three bytes of one side.
  induction hlength : bytes.length + bytes'.length using Nat.strongRecOn
    generalizing bytes bytes' with
  | ind n ih =>
    subst hlength
    match bytes, bytes' with
    | [], [] => exact .nil
    | [], b :: bytes' => exact absurd h.symm (escapedText_cons_ne_nil b bytes')
    | b :: bytes, [] => exact absurd h (escapedText_cons_ne_nil b bytes)
    | b :: bytes, b' :: bytes' =>
      cases hb : isPrintable b <;> cases hb' : isPrintable b'
      case true.true =>
        rw [escapedText_cons_of_isPrintable hb, escapedText_cons_of_isPrintable hb',
          List.cons.injEq] at h
        obtain rfl := byteCharacter_injective h.1
        exact .same b (ih _ (by simp; omega) h.2 rfl)
      case true.false =>
        obtain ⟨later, hlater, hrest⟩ := exists_spelling_of_escapedText_eq hb hb' h
        have hlength := congrArg List.length hlater
        rw [hlater]
        exact .left hb' (ih _ (by simp [spelling] at hlength ⊢; omega) hrest rfl)
      case false.true =>
        obtain ⟨later, hlater, hrest⟩ := exists_spelling_of_escapedText_eq hb' hb h.symm
        have hlength := congrArg List.length hlater
        rw [hlater]
        exact .right hb (ih _ (by simp [spelling] at hlength ⊢; omega) hrest.symm rfl)
      case false.false =>
        rw [escapedText_cons_of_not_isPrintable hb, escapedText_cons_of_not_isPrintable hb'] at h
        obtain ⟨-, hhigh, hlow, hrest⟩ : _ ∧ _ ∧ _ ∧ _ := by simpa only [List.cons.injEq] using h
        obtain rfl := eq_of_digitChar_eq hhigh hlow
        exact .same b (ih _ (by simp; omega) hrest rfl)

private theorem SpelledAlike.escapedText_eq (h : SpelledAlike bytes bytes') :
    escapedText bytes = escapedText bytes' := by
  induction h with
  | nil => rfl
  | same b _ ih => rw [escapedText_cons, escapedText_cons, ih]
  | left hb _ ih => rw [escapedText_spelling, escapedText_cons_of_not_isPrintable hb, ih]
  | right hb _ ih => rw [escapedText_spelling, escapedText_cons_of_not_isPrintable hb, ih]

/-- Bytes have the same text exactly if they are spelled alike. -/
theorem escapedText_eq_iff : escapedText bytes = escapedText bytes' ↔ SpelledAlike bytes bytes' :=
  ⟨spelledAlike_of_escapedText_eq, SpelledAlike.escapedText_eq⟩

end WordMachine.Text
