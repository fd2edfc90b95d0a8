import WordMachine.Proofs.Annotation.Content

/-!
# Places as locations

A place that is no range may also stand where a location is asked for. The two readers take numbers
and names from the same notation, with one difference: a location can be a hexadecimal number, and
numbers come before names. So a place denotes the same address as a location unless it is the name
of a symbol like `0x10`, with which it reads as a hexadecimal number
(`Annotations.resolve_place`).
-/

namespace WordMachine

open Text

namespace Place

/-- The place consists of two addresses. -/
def IsRange : Place → Prop
  | addresses _ (some _) => True
  | _ => False

variable {symbols : SymbolTable} {place : Place} {text name : List Char}
  {offset : Option (List Char)} {first last : Word} {n : Nat}

/-! ### Spellings -/

/-- There are no blanks in a place. -/
private theorem Spells.isBlank_eq_false (h : place.Spells text) :
    ∀ c ∈ text, isBlank c = false := by
  intro c hc
  refine Bool.eq_false_iff.mpr fun hblank => ?_
  have hdigit : isDecimalDigit c = false := isDecimalDigit_eq_false hblank
  have hword : isWordCharacter c = false := isWordCharacter_eq_false hblank
  have hminus : c ≠ '-' := by
    rintro rfl
    exact absurd hblank (by decide)
  have hplus : c ≠ '+' := by
    rintro rfl
    exact absurd hblank (by decide)
  rcases h with hdigits | ⟨hfirst, hlast⟩ | ⟨hname, -⟩ | ⟨hname, hdigits⟩
  · simp [hdigits.all c hc] at hdigit
  · simp only [List.mem_append, List.mem_cons, hminus, false_or] at hc
    rcases hc with hc | hc
    · simp [hfirst.all c hc] at hdigit
    · simp [hlast.all c hc] at hdigit
  · simp [hname.all c hc] at hword
  · simp only [List.mem_append, List.mem_cons, hplus, false_or] at hc
    rcases hc with hc | hc
    · simp [hname.all c hc] at hword
    · simp [hdigits.all c hc] at hdigit

/-- A name is no decimal number, with or without an offset. -/
private theorem Spells.not_numeral (h : (symbol name offset).Spells text) :
    ¬ Numeral 10 decimalValue? text n := by
  have hhead : text.head?.any isWordCharacter = true := by
    rcases h with _ | _ | ⟨hname, -⟩ | ⟨hname, -⟩
    · simpa using hname.head?_append []
    · exact hname.head?_append _
  have hdigits : ¬ ∀ c ∈ text, c.isDigit = true := by
    rcases h with _ | _ | ⟨-, hmixed⟩ | _
    · exact fun hall => hmixed fun c hc => isDecimalDigit_of_isDigit (hall c hc)
    · exact fun hall => absurd (hall '+' (by simp)) (by decide)
  -- Without a sign every character would be a digit, and with one the name would start with it.
  rintro (⟨-, hall⟩ | _)
  · exact hdigits fun c hc => isSome_decimalValue?_iff.mp (hall c hc)
  · have hplus : isWordCharacter '+' = true := hhead
    exact absurd hplus (by decide +kernel)

/-- A place that reads as a hexadecimal number has the mark of one in its name. -/
private theorem Spells.eq_symbol_of_readsAsHexadecimal (h : place.Spells text)
    (hrange : ¬ place.IsRange) (hreads : ReadsAsHexadecimal text n) :
    ∃ mark rest offset, place = symbol ('0' :: mark :: rest) offset ∧
      (mark = 'x' ∨ mark = 'X') := by
  obtain ⟨mark, digits, hmark, htext⟩ :
      ∃ mark digits, (mark = 'x' ∨ mark = 'X') ∧ text = '0' :: mark :: digits := by
    obtain ⟨hmark, -⟩ := hreads
    exact ⟨_, _, hmark, rfl⟩
  rcases h with hdigits | _ | _ | @⟨name, digits, hname, -⟩
  · have hdigit := hdigits.all mark (by simp [htext])
    rcases hmark with rfl | rfl
    · exact absurd hdigit (by decide)
    · exact absurd hdigit (by decide)
  · exact absurd trivial hrange
  · exact ⟨mark, digits, none, by rw [htext], hmark⟩
  · rcases name with _ | ⟨c, _ | ⟨c', rest⟩⟩
    · exact absurd rfl hname.ne_nil
    -- The mark of an offset is not that of a hexadecimal number.
    · obtain ⟨-, rfl, -⟩ : c = '0' ∧ '+' = mark ∧ _ := by simpa using htext
      exact absurd hmark (by decide)
    · obtain ⟨rfl, rfl, -⟩ : c = '0' ∧ c' = mark ∧ _ := by simpa using htext
      exact ⟨c', rest, some digits, rfl, hmark⟩

/-! ### Locations -/

/-- Unless it reads as a hexadecimal number, a place denotes the same as a location. -/
private theorem resolve_of_denotes (hsymbols : symbols.WellFormed) (hspells : place.Spells text)
    (hrange : ¬ place.IsRange) (hplace : place.Denotes symbols first last)
    (hnot : ¬ ∃ n : Word, ReadsAsHexadecimal text n.toNat) :
    symbols.resolve text = .ok first := by
  have hblank := hspells.isBlank_eq_false
  have hnumber {name : List Char} {offset : Option (List Char)}
      (hspells : (symbol name offset).Spells text) : ¬ ∃ n : Word, ReadsAs text n.toNat := by
    rintro ⟨n, hreads | hreads⟩
    · exact hspells.not_numeral hreads
    · exact hnot ⟨n, hreads⟩
  cases hspells with
  | address hdigits =>
    rcases hplace with ⟨hascii, hnumber, -⟩
    have hread := (decimalWord?_eq_some_iff hdigits.ne_nil hascii).mpr hnumber
    exact SymbolTable.resolve_of_readsAs hblank
      (.decimal (decimalWord?_eq_some_iff_numeral.mp hread))
  | range _ _ => exact absurd trivial hrange
  | name hname hmixed =>
    rcases hplace with _ | _ | @⟨e, _, hmem, hsame⟩
    obtain rfl : text = e.name.toList := by rw [hsame, String.toList_ofList]
    rw [SymbolTable.resolve_of_not_readsAs hblank (hnumber (.name hname hmixed))]
    exact SymbolTable.resolveName_name hsymbols hmem hname
  | @offset name digits hname hdigits =>
    rcases hplace with _ | _ | _ | @⟨e, _, _, _, hmem, hsame, hascii, hsum, hle⟩
    obtain rfl : name = e.name.toList := by rw [hsame, String.toList_ofList]
    rw [SymbolTable.resolve_of_not_readsAs hblank (hnumber (.offset hname hdigits))]
    obtain ⟨offset, hoffset, haddress⟩ :=
      Option.bind_eq_some_iff.mp ((bind_addressAt?_eq_some_iff hdigits).mpr ⟨hascii, hsum, hle⟩)
    exact SymbolTable.resolveName_offset hsymbols hmem hname hdigits hoffset haddress

end Place

namespace Annotations

/-- **A place denotes the same address as a location,** unless it reads as another number. A line of
an accepted file with a place that is no range starts an annotation. As a location its place denotes
an address, namely the first one of the annotation, except that a place which reads as a hexadecimal
number denotes that number. So the two agree if no symbol has a name like `0x10`. -/
theorem resolve_place {symbolText text line spelled trailer : List Char} {symbols : SymbolTable}
    {notes : Annotations} {place : Place} {remark : Option (List Char)}
    (hsymbols : SymbolTable.ofText symbolText = .ok symbols)
    (hnotes : ofText symbols text = .ok notes) (hline : line ∈ lines text)
    (hsplit : trim line = spelled ++ trailer) (hspells : place.Spells spelled)
    (htrailer : AnnotationLine.Trailer remark trailer) (hrange : ¬ place.IsRange) :
    ∃ note ∈ notes.entries,
      place.resolve symbols = .ok (note.first, note.last) ∧
      note.remark = remark.map String.ofList ∧
      (∃ found, symbols.resolve spelled = .ok found ∧
        (∀ n : Word, ReadsAsHexadecimal spelled n.toNat → found = n) ∧
        (found ≠ note.first ↔
          ∃ n : Word, ReadsAsHexadecimal spelled n.toNat ∧ n ≠ note.first)) ∧
      ((∀ e ∈ symbols.added, ∀ mark rest, e.name.toList = '0' :: mark :: rest →
          mark ≠ 'x' ∧ mark ≠ 'X') → symbols.resolve spelled = .ok note.first) := by
  have htable := (SymbolTable.says_of_ofText hsymbols).1
  obtain ⟨file, hsays, -, hmakes, -⟩ := (ofText_eq_ok_iff htable).mp hnotes
  obtain ⟨reading, hmem, hreading⟩ := exists_reading_of_mem hsays hline
  rw [hsplit] at hreading
  obtain rfl := hreading.unique (.place hspells htrailer)
  obtain ⟨before, below, hfile⟩ := List.append_of_mem hmem
  obtain ⟨note, hnote, hplace, hremark, -⟩ := exists_reading_of_mem hmakes
    (mem_sections_iff.mpr ⟨before, place, remark, below, hfile, rfl⟩)
  refine ⟨note, hnote, (Place.resolve_eq_ok_iff htable hspells).mpr hplace, hremark, ?_, ?_⟩
  · exact SymbolTable.exists_found
      (fun _ hreads =>
        SymbolTable.resolve_of_readsAs hspells.isBlank_eq_false (.hexadecimal hreads))
      (Place.resolve_of_denotes htable hspells hrange hplace)
  · intro hnames
    refine Place.resolve_of_denotes htable hspells hrange hplace fun ⟨n, hreads⟩ => ?_
    obtain ⟨mark, rest, offset, rfl, hmark⟩ :=
      hspells.eq_symbol_of_readsAsHexadecimal hrange hreads
    obtain ⟨e, hmem, hname⟩ := hplace.exists_name
    obtain ⟨hlower, hupper⟩ := hnames e hmem mark rest hname
    rcases hmark with rfl | rfl
    · exact hlower rfl
    · exact hupper rfl

/-- A name that looks like a number, with an offset. -/
theorem resolve_place_numberNames :
    SymbolTable.ofText "0x10 2-4\n7 30-40".toList = .ok SymbolTable.numberNames ∧
      ofText SymbolTable.numberNames "0x10\n7+3 // here".toList =
        .ok ⟨[⟨2, 4, none, []⟩, ⟨33, 33, some "here", []⟩]⟩ ∧
      SymbolTable.numberNames.resolve ['7', '+', '3'] = .ok 33 := by
  have hsymbols : SymbolTable.ofText "0x10 2-4\n7 30-40".toList = .ok SymbolTable.numberNames := by
    decide +kernel
  have hnotes : ofText SymbolTable.numberNames "0x10\n7+3 // here".toList =
      .ok ⟨[⟨2, 4, none, []⟩, ⟨33, 33, some "here", []⟩]⟩ := by decide +kernel
  have hspells : (Place.symbol ['7'] (some ['3'])).Spells ['7', '+', '3'] :=
    .offset (by decide +kernel) (by decide +kernel)
  have htrailer : AnnotationLine.Trailer (some "here".toList) " // here".toList :=
    AnnotationLine.remarkAtEnd?_eq_some_iff.mp (by decide +kernel)
  obtain ⟨note, -, hplace, -, ⟨found, hfound, -, hexactly⟩, -⟩ :=
    resolve_place hsymbols hnotes (by decide +kernel : "7+3 // here".toList ∈ _)
      (by decide +kernel) hspells htrailer id
  have hresolve : (Place.symbol ['7'] (some ['3'])).resolve SymbolTable.numberNames =
      .ok (33, 33) := by decide +kernel
  have hfirst : note.first = 33 :=
    (Prod.mk.inj (Except.ok.inj (hplace.symm.trans hresolve))).1
  have hsame : found = note.first := by
    by_contra hne
    obtain ⟨n, hreads, -⟩ := hexactly.mp hne
    obtain ⟨mark, rest, offset, hname, -⟩ := hspells.eq_symbol_of_readsAsHexadecimal id hreads
    cases hname
  exact ⟨hsymbols, hnotes, by rw [hfound, hsame, hfirst]⟩

/-- The name of a symbol does not always denote the same in both ways: as a location, `0x10` is a
number. -/
theorem not_resolve_place_always :
    ¬ ∀ (symbolText text line spelled trailer : List Char) (symbols : SymbolTable)
      (notes : Annotations) (place : Place) (remark : Option (List Char)),
      SymbolTable.ofText symbolText = .ok symbols → ofText symbols text = .ok notes →
      line ∈ lines text → trim line = spelled ++ trailer → place.Spells spelled →
      AnnotationLine.Trailer remark trailer → ¬ place.IsRange →
      ∃ first last, place.resolve symbols = .ok (first, last) ∧
        symbols.resolve spelled = .ok first := by
  intro hall
  have hspells : (Place.symbol "0x10".toList none).Spells "0x10".toList :=
    .name (by decide +kernel) fun hall => absurd (hall 'x' (by decide)) (by decide)
  have htrailer : AnnotationLine.Trailer (some "here".toList) " // here".toList :=
    AnnotationLine.remarkAtEnd?_eq_some_iff.mp (by decide +kernel)
  obtain ⟨first, last, hplace, hlocation⟩ :=
    hall "0x10 2\n".toList "0x10 // here\n".toList "0x10 // here".toList _ _
      ⟨#[⟨"0x10", 2, 2⟩], #[0]⟩ ⟨[⟨2, 2, some "here", []⟩]⟩ _ _ (by decide +kernel)
      (by decide +kernel) (by decide +kernel) (by decide +kernel) hspells htrailer id
  have hplace' : (Place.symbol "0x10".toList none).resolve ⟨#[⟨"0x10", 2, 2⟩], #[0]⟩ =
      .ok (2, 2) := by decide +kernel
  have hlocation' : SymbolTable.resolve ⟨#[⟨"0x10", 2, 2⟩], #[0]⟩ "0x10".toList = .ok 16 := by
    decide +kernel
  rw [hplace'] at hplace
  rw [hlocation'] at hlocation
  cases hplace
  exact absurd hlocation (by decide)

end Annotations

end WordMachine
