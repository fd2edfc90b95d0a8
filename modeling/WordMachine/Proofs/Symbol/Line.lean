import WordMachine.Proofs.Text.Stretch
import WordMachine.Symbol.File

/-!
# What a line of a symbol file says

The format of a line is stated as a grammar, with no order in which its fields are looked for
(`SymbolLine.Spells`). Reading from left to right, with each field as long as it can be, finds the
fields of a line exactly if the line has the format (`SymbolLine.ofLine?_eq_some_iff`): whatever may
follow a field begins with a character that the field cannot have.
-/

namespace WordMachine

open Text

namespace SymbolLine

variable {line text first trailer : List Char} {last : Option (List Char)} {fields : SymbolLine}

/-! ### The format -/

/-- Nothing, or a comment with any blanks before it. -/
inductive Trailer : List Char → Prop
  | none : Trailer []
  | comment {blanks : List Char} (hblanks : ∀ c ∈ blanks, isBlank c = true) (text : List Char) :
    Trailer (blanks ++ '#' :: text)

/-- The digits of one address, or of two with a minus sign between them, and a trailer. -/
inductive Addresses : List Char → Option (List Char) → List Char → Prop
  | single {first trailer : List Char} (hfirst : Stretch Char.isDigit first)
    (htrailer : Trailer trailer) : Addresses first .none (first ++ trailer)
  | range {first last trailer : List Char} (hfirst : Stretch Char.isDigit first)
    (hlast : Stretch Char.isDigit last) (htrailer : Trailer trailer) :
    Addresses first (some last) (first ++ '-' :: (last ++ trailer))

/-- The fields **spell** a line when it consists of the name, blanks and the addresses. -/
inductive Spells : SymbolLine → List Char → Prop
  | intro {name blanks first addresses : List Char} {last : Option (List Char)}
    (hname : Stretch isWordCharacter name) (hblanks : Stretch isBlank blanks)
    (haddresses : Addresses first last addresses) :
    Spells ⟨name, first, last⟩ (name ++ (blanks ++ addresses))

/-! ### Reading it -/

theorem isTrailer_iff : isTrailer text = true ↔ Trailer text := by
  rw [isTrailer, Bool.or_eq_true, List.isEmpty_iff, decide_eq_true_iff]
  constructor
  · rintro (rfl | hmark)
    · exact .none
    · obtain ⟨comment, hdrop⟩ := List.head?_eq_some_iff.mp hmark
      obtain ⟨htext, hblanks, -⟩ := takeWhile_dropWhile_iff.mp ⟨rfl, hdrop⟩
      rw [htext]
      exact .comment hblanks comment
  · rintro (_ | ⟨hblanks, comment⟩)
    · exact .inl rfl
    · have hstops : StopsBefore isBlank ('#' :: comment) := stopsBefore_cons (by decide) comment
      obtain ⟨-, hdrop⟩ := takeWhile_dropWhile_iff.mpr ⟨rfl, hblanks, hstops⟩
      rw [hdrop]
      exact .inr rfl

/-- A trailer begins with a blank or with the mark of a comment. -/
private theorem Trailer.stopsBefore {p : Char → Bool} (h : Trailer trailer)
    (hblank : ∀ c, isBlank c = true → p c = false) (hmark : p '#' = false) :
    StopsBefore p trailer := by
  cases h with
  | none => nofun
  | @comment blanks hblanks text =>
    cases blanks with
    | nil => exact stopsBefore_cons hmark text
    | cons c blanks => exact stopsBefore_cons (hblank c (hblanks c (.head _))) _

/-- Neither a blank nor the mark of a comment can be taken for part of an address. -/
private theorem Trailer.stopsBefore_isDigit (h : Trailer trailer) :
    StopsBefore Char.isDigit trailer :=
  h.stopsBefore (fun _ => isDigit_eq_false) (by decide)

private theorem Trailer.ne_dash (h : Trailer trailer) (rest : List Char) :
    trailer ≠ '-' :: rest := by
  have hstops := h.stopsBefore (p := (· = '-')) (fun c hblank => ?_) (by decide)
  · rintro rfl
    exact absurd (hstops '-' rfl) (by decide)
  · rw [decide_eq_false_iff_not]
    rintro rfl
    exact absurd hblank (by decide)

/-- Behind its digits, an address is followed by a minus sign or by a trailer. -/
private theorem addresses?_of_addresses (h : Addresses first last text) :
    addresses? text = some (first, last) := by
  cases h with
  | single hfirst htrailer =>
    obtain ⟨htake, hdrop⟩ := hfirst.takeWhile_dropWhile htrailer.stopsBefore_isDigit
    simp only [addresses?, htake, hdrop]
    rw [if_neg (by simpa using hfirst.ne_nil)]
    split
    · next rest => exact absurd rfl (htrailer.ne_dash rest)
    · exact if_pos (isTrailer_iff.mpr htrailer)
  | @range last trailer hfirst hlast htrailer =>
    obtain ⟨htake, hdrop⟩ := hfirst.takeWhile_dropWhile
      (stopsBefore_cons (by decide : Char.isDigit '-' = false) (last ++ trailer))
    obtain ⟨htake', hdrop'⟩ := hlast.takeWhile_dropWhile htrailer.stopsBefore_isDigit
    simp [addresses?, htake, hdrop, htake', hdrop', hfirst.ne_nil, hlast.ne_nil,
      isTrailer_iff.mpr htrailer]

/-- The digits of the first address end the blanks before it. -/
private theorem Addresses.stopsBefore_isBlank (h : Addresses first last text) :
    StopsBefore isBlank text := by
  cases h with
  | single hfirst _ => exact hfirst.stopsBefore (fun _ => isBlank_eq_false) _
  | range hfirst _ _ => exact hfirst.stopsBefore (fun _ => isBlank_eq_false) _

private theorem addresses_of_addresses? (h : addresses? text = some (first, last)) :
    Addresses first last text := by
  have htext := text.takeWhile_append_dropWhile (p := Char.isDigit)
  simp only [addresses?] at h
  split at h
  · cases h
  next hne =>
    have hfirst := stretch_takeWhile (by simpa using hne)
    split at h
    · next rest hdrop =>
      have hrest := rest.takeWhile_append_dropWhile (p := Char.isDigit)
      split at h <;> cases h
      next hlast =>
        rw [Bool.and_eq_true, isTrailer_iff] at hlast
        have hdigits := stretch_takeWhile (by simpa using hlast.1)
        have haddresses := Addresses.range hfirst hdigits hlast.2
        rwa [hrest, ← hdrop, htext] at haddresses
    · split at h <;> cases h
      next htrailer =>
        have haddresses := Addresses.single hfirst (isTrailer_iff.mp htrailer)
        rwa [htext] at haddresses

/-- **Reading a line is exact.** The fields that are found, from left to right and each as long as
it can be, are those that spell the line, if there are any. -/
theorem ofLine?_eq_some_iff : ofLine? line = some fields ↔ fields.Spells line := by
  constructor
  · intro h
    have hline := line.takeWhile_append_dropWhile (p := isWordCharacter)
    have hrest := (line.dropWhile isWordCharacter).takeWhile_append_dropWhile (p := isBlank)
    simp only [ofLine?] at h
    split at h
    · next hfields =>
      obtain ⟨⟨found, last⟩, haddresses, rfl⟩ := Option.map_eq_some_iff.mp h
      rw [Bool.and_eq_true] at hfields
      have hname := stretch_takeWhile (by simpa using hfields.1)
      have hblanks := stretch_takeWhile_of_head hfields.2
      have hspells := Spells.intro hname hblanks (addresses_of_addresses? haddresses)
      rwa [hrest, hline] at hspells
    · cases h
  · rintro @⟨name, blanks, first, addresses, last, hname, hblanks, haddresses⟩
    have hstops := hblanks.stopsBefore (fun _ => isWordCharacter_eq_false) addresses
    obtain ⟨htake, hdrop⟩ := hname.takeWhile_dropWhile hstops
    obtain ⟨-, hdrop'⟩ := hblanks.takeWhile_dropWhile haddresses.stopsBefore_isBlank
    have hfields : (!name.isEmpty && (blanks ++ addresses).head?.any isBlank) = true := by
      rw [hblanks.head?_append, Bool.and_true]
      simpa using hname.ne_nil
    simp only [ofLine?, htake, hdrop]
    rw [if_pos hfields, hdrop', addresses?_of_addresses haddresses]
    rfl

/-! ### Lines that spell a symbol -/

namespace Spells

/-- A line has one list of fields at most. -/
theorem unique {fields' : SymbolLine} (h : fields.Spells line) (h' : fields'.Spells line) :
    fields = fields' :=
  Option.some.inj ((ofLine?_eq_some_iff.mpr h).symm.trans (ofLine?_eq_some_iff.mpr h'))

theorem stretch_name (h : fields.Spells line) : Stretch isWordCharacter fields.name := by
  obtain ⟨hname, -, -⟩ := h
  exact hname

theorem stretch_first (h : fields.Spells line) : Stretch Char.isDigit fields.first := by
  obtain ⟨-, -, haddresses⟩ := h
  cases haddresses with
  | single hfirst _ => exact hfirst
  | range hfirst _ _ => exact hfirst

theorem stretch_last (h : fields.Spells line) :
    Stretch Char.isDigit (fields.last.getD fields.first) := by
  obtain ⟨-, -, haddresses⟩ := h
  cases haddresses with
  | single hfirst _ => exact hfirst
  | range _ hlast _ => exact hlast

/-- A name is not empty, and the mark of a comment cannot stand in it. -/
theorem isSkipped_eq_false (h : fields.Spells line) : SymbolTable.isSkipped line = false := by
  obtain ⟨hname, -, -⟩ := h
  obtain ⟨c, name, rfl⟩ := List.exists_cons_of_ne_nil hname.ne_nil
  have hmark : c ≠ '#' := by
    rintro rfl
    exact absurd (hname.all '#' (.head _)) (by decide +kernel)
  simpa [SymbolTable.isSkipped] using hmark

end Spells

end SymbolLine

end WordMachine
