import WordMachine.Proofs.Symbol.Names
import WordMachine.Symbol.Location

/-!
# What locations denote

A location that **reads as** a number denotes that number, whatever symbols there are
(`resolve_of_readsAs`). Any other location is the name of a symbol with or without an offset, and
denotes the address that is so far from the first one of the symbol (`resolveName_name`,
`resolveName_offset`).

The name of an address is made from the symbol that holds it. It denotes the address again unless
the symbol has a name like `7` or `0x10`, with which the name of the address reads as another number
(`addressName_reads_back`).
-/

namespace WordMachine

open Text

/-! ### Texts that read as numbers -/

/-- The text is a hexadecimal numeral behind `0x` or `0X`. -/
inductive ReadsAsHexadecimal : List Char → Nat → Prop
  | intro {mark : Char} {digits : List Char} {n : Nat} (hmark : mark = 'x' ∨ mark = 'X')
    (hdigits : Numeral 16 hexadecimalValue? digits n) : ReadsAsHexadecimal ('0' :: mark :: digits) n

/-- The text as a whole **reads as** a number: it is a decimal numeral, or a hexadecimal one behind
`0x` or `0X`. -/
inductive ReadsAs (text : List Char) (n : Nat) : Prop
  | decimal (h : Numeral 10 decimalValue? text n)
  | hexadecimal (h : ReadsAsHexadecimal text n)

section Numbers

variable {text name digits : List Char} {mark : Char} {n : Nat} {w : Word}

/-- The mark of a hexadecimal numeral is not a decimal digit. -/
private theorem not_numeral_of_mark (hmark : mark = 'x' ∨ mark = 'X') :
    ¬ Numeral 10 decimalValue? ('0' :: mark :: digits) n := by
  rintro (⟨-, hdigits⟩)
  have hsome := hdigits mark (.tail _ (.head _))
  obtain rfl | rfl := hmark
  · exact absurd hsome (by decide)
  · exact absurd hsome (by decide)

private theorem readsAs_mark_iff (hmark : mark = 'x' ∨ mark = 'X') :
    ReadsAs ('0' :: mark :: digits) n ↔ Numeral 16 hexadecimalValue? digits n := by
  constructor
  · rintro (h | ⟨-, h⟩)
    · exact absurd h (not_numeral_of_mark hmark)
    · exact h
  · intro h
    exact .hexadecimal (.intro hmark h)

/-- The number of a location is the word that its text reads as. -/
theorem addressNumber?_eq_some_iff : addressNumber? text = some w ↔ ReadsAs text w.toNat := by
  unfold addressNumber?
  split
  · rw [readsAs_mark_iff (.inl rfl), hexadecimalWord?_eq_some_iff_numeral]
  · rw [readsAs_mark_iff (.inr rfl), hexadecimalWord?_eq_some_iff_numeral]
  · next hlower hupper =>
    rw [decimalWord?_eq_some_iff_numeral]
    constructor
    · exact .decimal
    · rintro (h | ⟨rfl | rfl, -⟩)
      · exact h
      · exact absurd rfl (hlower _)
      · exact absurd rfl (hupper _)

/-- A number starts with a digit or a plus sign. -/
private theorem ReadsAs.head_cases (h : ReadsAs text n) :
    ∃ c ∈ text.head?, c = '+' ∨ c.isDigit = true := by
  obtain h | ⟨-, -⟩ := h
  · obtain ⟨hne, hdigits⟩ | _ := h
    · obtain ⟨c, digits, rfl⟩ := List.exists_cons_of_ne_nil hne
      exact ⟨c, rfl, .inr (isSome_decimalValue?_iff.mp (hdigits c (.head _)))⟩
    · exact ⟨'+', rfl, .inl rfl⟩
  · exact ⟨'0', rfl, .inr (by decide)⟩

/-- What is written for a word reads as that word only. -/
private theorem addressNumber?_text (w : Word) : addressNumber? w.text.toList = some w :=
  addressNumber?_eq_some_iff.mpr
    (.decimal (decimalWord?_eq_some_iff_numeral.mp (decimalWord?_decimal w)))

end Numbers

/-! ### Names with an offset -/

section Names

variable {name digits : List Char}

private theorem nameWithOffset?_name (hname : Stretch isWordCharacter name) :
    nameWithOffset? name = some (name, none) := by
  have hstops : StopsBefore isWordCharacter [] := nofun
  have hsplit := hname.takeWhile_dropWhile hstops
  rw [List.append_nil] at hsplit
  simp [nameWithOffset?, hsplit.1, hsplit.2, hname.ne_nil]

private theorem nameWithOffset?_offset (hname : Stretch isWordCharacter name)
    (hdigits : Stretch isDecimalDigit digits) :
    nameWithOffset? (name ++ '+' :: digits) = some (name, some digits) := by
  have hplus : isWordCharacter '+' = false := by decide +kernel
  obtain ⟨htake, hdrop⟩ := hname.takeWhile_dropWhile (stopsBefore_cons hplus digits)
  simpa [nameWithOffset?, htake, hdrop, hname.ne_nil, hdigits.ne_nil] using hdigits.all

end Names

/-- The address at an offset is the one that is so far from the first, if the range reaches it. -/
theorem SymbolEntry.addressAt?_eq_some_iff {e : SymbolEntry} {offset address : Word} :
    e.addressAt? offset = some address ↔
      e.first.toNat + offset.toNat = address.toNat ∧ address ≤ e.last := by
  have hlast := e.last.toNat_lt
  rw [addressAt?, UInt16.le_iff_toNat_le]
  split
  · next hle =>
    rw [Option.some.injEq, ← UInt16.toNat_inj, UInt16.toNat_add, Nat.mod_eq_of_lt (by omega)]
    constructor
    · rintro hsum
      exact ⟨hsum, by omega⟩
    · exact And.left
  · next hgt =>
    constructor
    · nofun
    · rintro ⟨hsum, hle⟩
      omega

namespace SymbolTable

variable {table : SymbolTable} {text digits : List Char} {e : SymbolEntry}
  {address offset w : Word}

/-! ### Resolving locations -/

/-- What is found when numbers come first: the number that there is, or else a given address. -/
theorem exists_found {ε : Type} {result : Except ε Word} {IsNumber : Word → Prop}
    (hnumber : ∀ n, IsNumber n → result = .ok n)
    (hother : (¬ ∃ n, IsNumber n) → result = .ok address) :
    ∃ found, result = .ok found ∧ (∀ n, IsNumber n → found = n) ∧
      (found ≠ address ↔ ∃ n, IsNumber n ∧ n ≠ address) := by
  by_cases h : ∃ n, IsNumber n
  · obtain ⟨n, hn⟩ := h
    have hunique (n' : Word) (hn' : IsNumber n') : n = n' :=
      Except.ok.inj ((hnumber n hn).symm.trans (hnumber n' hn'))
    refine ⟨n, hnumber n hn, hunique, fun hne => ⟨n, hn, hne⟩, ?_⟩
    rintro ⟨n', hn', hne⟩
    rwa [hunique n' hn']
  · refine ⟨address, hother h, fun n hn => absurd ⟨n, hn⟩ h, fun hne => absurd rfl hne, ?_⟩
    rintro ⟨n, hn, -⟩
    exact absurd ⟨n, hn⟩ h

/-- Numbers come before names. -/
theorem resolve_of_readsAs (hblank : ∀ c ∈ text, isBlank c = false) (h : ReadsAs text w.toNat) :
    table.resolve text = .ok w := by
  simp only [resolve, trim_eq_self hblank, addressNumber?_eq_some_iff.mpr h]

theorem resolve_of_not_readsAs (hblank : ∀ c ∈ text, isBlank c = false)
    (h : ¬ ∃ w : Word, ReadsAs text w.toNat) : table.resolve text = table.resolveName text := by
  have hnone : addressNumber? text = none :=
    Option.eq_none_iff_forall_ne_some.mpr fun w hw => h ⟨w, addressNumber?_eq_some_iff.mp hw⟩
  simp only [resolve, trim_eq_self hblank, hnone]

/-- The name of a symbol denotes its first address. -/
theorem resolveName_name (htable : table.WellFormed) (hmem : e ∈ table.added)
    (hname : Stretch isWordCharacter e.name.toList) :
    table.resolveName e.name.toList = .ok e.first := by
  simp [resolveName, nameWithOffset?_name hname, htable.lookupName?_name hmem]

/-- A name with an offset denotes an address in the range of the symbol. -/
theorem resolveName_offset (htable : table.WellFormed) (hmem : e ∈ table.added)
    (hname : Stretch isWordCharacter e.name.toList) (hdigits : Stretch isDecimalDigit digits)
    (hoffset : decimalWord? digits = some offset) (haddress : e.addressAt? offset = some address) :
    table.resolveName (e.name.toList ++ '+' :: digits) = .ok address := by
  simp [resolveName, nameWithOffset?_offset hname hdigits, htable.lookupName?_name hmem, hoffset,
    haddress]

/-! ### Names of addresses -/

private theorem stretch_text (w : Word) : Stretch isDecimalDigit w.text.toList where
  ne_nil hnil := by
    have hread := addressNumber?_text w
    rw [hnil] at hread
    cases hread
  all _ hc := isDecimalDigit_of_isDigit (isDigit_of_mem_decimal hc)

/-- As a name, the name of an address that a symbol holds denotes the address. -/
private theorem resolveName_offsetName (htable : table.WellFormed)
    (hname : Stretch isWordCharacter e.name.toList)
    (hfound : table.lookupAddress? address = some (e, offset)) :
    table.resolveName (e.offsetName offset).toList = .ok address := by
  obtain ⟨hmem, -, hlast, hsum⟩ := htable.lookupAddress?_eq_some_iff.mp hfound
  rw [SymbolEntry.offsetName]
  split
  · next hzero =>
    have hfirst : e.first = address := by
      rw [← UInt16.toNat_inj, ← hsum, hzero, UInt16.toNat_zero, Nat.add_zero]
    rw [resolveName_name htable hmem hname, hfirst]
  · have htext : (e.name ++ "+" ++ offset.text).toList =
        e.name.toList ++ '+' :: offset.text.toList := by simp
    rw [htext]
    exact resolveName_offset htable hmem hname (stretch_text offset) (decimalWord?_decimal offset)
      (SymbolEntry.addressAt?_eq_some_iff.mpr ⟨hsum, hlast⟩)

/-- The name of an address that no symbol holds is its numeral. -/
private theorem addressName_of_not_held (htable : table.WellFormed)
    (h : ∀ e ∈ table.added, ¬ (e.first ≤ address ∧ address ≤ e.last)) :
    table.addressName address = address.text := by
  rw [addressName, htable.lookupAddress?_eq_none_iff.mpr h]

/-- The name of an address is that of the symbol which holds it, or else a numeral. -/
private theorem addressName_cases (htable : table.WellFormed) (address : Word) :
    (∃ e ∈ table.added, ∃ offset, table.lookupAddress? address = some (e, offset) ∧
        table.addressName address = e.offsetName offset) ∨
      ∀ e ∈ table.added, ¬ (e.first ≤ address ∧ address ≤ e.last) := by
  cases hfound : table.lookupAddress? address with
  | none => exact .inr (htable.lookupAddress?_eq_none_iff.mp hfound)
  | some found =>
    obtain ⟨e, offset⟩ := found
    have hmem := (htable.contains_of_lookupAddress? hfound).1
    exact .inl ⟨e, hmem, offset, rfl, by rw [addressName, hfound]⟩

/-- The name of an address that no symbol holds reads as the address. -/
private theorem readsAs_addressName (htable : table.WellFormed)
    (h : ∀ e ∈ table.added, ¬ (e.first ≤ address ∧ address ≤ e.last)) :
    ReadsAs (table.addressName address).toList address.toNat := by
  rw [addressName_of_not_held htable h]
  exact addressNumber?_eq_some_iff.mp (addressNumber?_text address)

/-- The name of an address holds no blanks. -/
private theorem isBlank_eq_false_of_mem_addressName (h : ofText text = .ok table) :
    ∀ c ∈ (table.addressName address).toList, isBlank c = false := by
  intro c hc
  have hname := (hasWordNames_of_ofText h).addressName (says_of_ofText h).1 address c hc
  refine Bool.eq_false_iff.mpr fun hblank => ?_
  rw [isNameCharacter_eq_false_of_isBlank hblank] at hname
  cases hname

/-- Where the name of an address does not read as a number, it denotes the address. -/
private theorem resolve_addressName (h : ofText text = .ok table)
    (hnot : ¬ ∃ n : Word, ReadsAs (table.addressName address).toList n.toNat) :
    table.resolve (table.addressName address).toList = .ok address := by
  have htable := (says_of_ofText h).1
  rw [resolve_of_not_readsAs (isBlank_eq_false_of_mem_addressName h) hnot]
  obtain ⟨e, hmem, offset, hfound, hname⟩ | hfree := addressName_cases htable address
  · rw [hname]
    exact resolveName_offsetName htable (stretch_name_of_ofText h hmem) hfound
  · exact absurd ⟨address, readsAs_addressName htable hfree⟩ hnot

/-- The name of a symbol stands in front of the offset. -/
private theorem head?_offsetName (hname : Stretch isWordCharacter e.name.toList) (offset : Word) :
    (e.offsetName offset).toList.head? = e.name.toList.head? := by
  obtain ⟨c, rest, hrest⟩ := List.exists_cons_of_ne_nil hname.ne_nil
  rw [SymbolEntry.offsetName]
  split
  · rfl
  · simp [hrest]

/-- A name that starts with no digit does not read as a number. -/
private theorem not_readsAs_of_head? (hname : Stretch isWordCharacter e.name.toList)
    (hdigit : ∀ c ∈ e.name.toList.head?, c.isDigit = false) (offset : Word) (n : Nat) :
    ¬ ReadsAs (e.offsetName offset).toList n := by
  intro hreads
  obtain ⟨c, hc, hplus | hnumber⟩ := hreads.head_cases
  · rw [head?_offsetName hname] at hc
    have hword := hname.all c (List.mem_of_mem_head? hc)
    rw [hplus] at hword
    exact absurd hword (by decide +kernel)
  · rw [head?_offsetName hname] at hc
    rw [hdigit c hc] at hnumber
    cases hnumber

/-- **Names of addresses read back.** The name of any address, in a table that is read from a file,
denotes an address. It denotes the address that it was made for, unless it reads as another number,
and then it denotes that number. So every name reads back if the names of symbols start with no
digit, and in any case the names of the addresses that no symbol holds do. -/
theorem addressName_reads_back (h : ofText text = .ok table) (address : Word) :
    let name := (table.addressName address).toList
    (∃ found, table.resolve name = .ok found ∧
        (∀ n : Word, ReadsAs name n.toNat → found = n) ∧
        (found ≠ address ↔ ∃ n : Word, ReadsAs name n.toNat ∧ n ≠ address)) ∧
      ((∀ e ∈ table.added, ∀ c ∈ e.name.toList.head?, c.isDigit = false) →
        table.resolve name = .ok address) ∧
      ((∀ e ∈ table.added, ¬ (e.first ≤ address ∧ address ≤ e.last)) →
        table.resolve name = .ok address) := by
  intro name
  have htable := (says_of_ofText h).1
  have hblank : ∀ c ∈ name, isBlank c = false := isBlank_eq_false_of_mem_addressName h
  have hheld (hfree : ∀ e ∈ table.added, ¬ (e.first ≤ address ∧ address ≤ e.last)) :
      table.resolve name = .ok address :=
    resolve_of_readsAs hblank (readsAs_addressName htable hfree)
  refine ⟨?_, fun hnames => ?_, hheld⟩
  · exact exists_found (fun _ => resolve_of_readsAs hblank) (resolve_addressName h)
  · obtain ⟨e, hmem, offset, -, hname⟩ | hfree := addressName_cases htable address
    · refine resolve_addressName h fun ⟨n, hn⟩ => ?_
      rw [hname] at hn
      exact not_readsAs_of_head? (stretch_name_of_ofText h hmem) (hnames e hmem) offset n.toNat hn
    · exact hheld hfree

/-- A table in which symbols have names that look like numbers. -/
def numberNames : SymbolTable := ⟨#[⟨"0x10", 2, 4⟩, ⟨"7", 30, 40⟩], #[0, 1]⟩

/-- The name of a first address is read as a number, and that of an address behind it is not. -/
theorem addressName_reads_back_numberNames :
    ofText "0x10 2-4\n7 30-40".toList = .ok numberNames ∧
      numberNames.addressName 2 = "0x10" ∧ numberNames.resolve "0x10".toList = .ok 16 ∧
      numberNames.addressName 33 = "7+3" ∧ numberNames.resolve "7+3".toList = .ok 33 := by
  have hread : ofText "0x10 2-4\n7 30-40".toList = .ok numberNames := by decide +kernel
  have hname : numberNames.addressName 2 = "0x10" := by decide +kernel
  have hname' : numberNames.addressName 33 = "7+3" := by decide +kernel
  obtain ⟨⟨found, hfound, hnumber, -⟩, -⟩ := addressName_reads_back hread 2
  obtain ⟨⟨found', hfound', -, hexactly⟩, -⟩ := addressName_reads_back hread 33
  rw [hname] at hfound hnumber
  rw [hname'] at hfound' hexactly
  refine ⟨hread, hname, ?_, hname', ?_⟩
  · rw [hfound, hnumber 16 (addressNumber?_eq_some_iff.mp (by decide +kernel))]
  · have hnone : addressNumber? "7+3".toList = none := by decide +kernel
    have hsame : found' = 33 := by
      by_contra hne
      obtain ⟨n, hn, -⟩ := hexactly.mp hne
      rw [addressNumber?_eq_some_iff.mpr hn] at hnone
      cases hnone
    rw [hfound', hsame]

end SymbolTable

end WordMachine
